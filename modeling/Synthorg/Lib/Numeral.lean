/-
Numerals of a fixed width.

`numeral b w n` writes the last `w` digits of `n` in base `b`, most
significant first, as `%0wd` (base ten) or two characters a byte
(`bytes.hex`) do. Below `b ^ w` nothing is cut off, so the text names the
number; and two texts of one width that open two longer texts end where
the other does, which is how a formatted record is taken apart again.
`readDecimal` is that taking apart, for base ten.
-/
import Mathlib.Algebra.Ring.Nat

namespace Synthorg.Lib

open List

namespace Numeral

variable {b w n m : Nat}

def numeral (b : Nat) : Nat → Nat → List Char
  | 0, _ => []
  | w + 1, n => numeral b w (n / b) ++ [Nat.digitChar (n % b)]

@[simp]
theorem length_numeral (b w n : Nat) : (numeral b w n).length = w := by
  induction w generalizing n with
  | zero => rfl
  | succ w ih => rw [numeral, length_append, ih, length_singleton]

theorem digit_of_mem (hb : 0 < b) {c : Char} (h : c ∈ numeral b w n) :
    ∃ d, d < b ∧ c = Nat.digitChar d := by
  induction w generalizing n with
  | zero => cases h
  | succ w ih =>
    rw [numeral, mem_append, mem_singleton] at h
    rcases h with h | h
    · exact ih h
    · exact ⟨n % b, Nat.mod_lt n hb, h⟩

theorem digitChar_inj {d e : Nat} (hd : d < 16) (he : e < 16)
    (h : Nat.digitChar d = Nat.digitChar e) : d = e := by
  have hall : ∀ d : Fin 16, ∀ e : Fin 16, Nat.digitChar d = Nat.digitChar e → d = e := by decide
  exact congrArg Fin.val (hall ⟨d, hd⟩ ⟨e, he⟩ h)

theorem numeral_inj (hb : 1 < b) (hbase : b ≤ 16) (hn : n < b ^ w) (hm : m < b ^ w)
    (h : numeral b w n = numeral b w m) : n = m := by
  induction w generalizing n m with
  | zero =>
    rw [Nat.pow_zero] at hn hm
    omega
  | succ w ih =>
    have hl := (length_numeral b w (n / b)).trans (length_numeral b w (m / b)).symm
    obtain ⟨hf, hlast⟩ := append_inj h hl
    rw [Nat.pow_succ, Nat.mul_comm] at hn hm
    have hq := ih (Nat.div_lt_of_lt_mul hn) (Nat.div_lt_of_lt_mul hm) hf
    have hd : n % b = m % b :=
      digitChar_inj (Nat.lt_of_lt_of_le (Nat.mod_lt n (by omega)) hbase)
        (Nat.lt_of_lt_of_le (Nat.mod_lt m (by omega)) hbase) (cons.inj hlast).1
    rw [← Nat.div_add_mod n b, ← Nat.div_add_mod m b, hq, hd]

/-- Numerals of one width at the head of equal texts agree, and so does the rest. -/
theorem numeral_append_inj (hb : 1 < b) (hbase : b ≤ 16) (hn : n < b ^ w)
    (hm : m < b ^ w) {xs ys : List Char}
    (h : numeral b w n ++ xs = numeral b w m ++ ys) : n = m ∧ xs = ys := by
  have hl := (length_numeral b w n).trans (length_numeral b w m).symm
  obtain ⟨hhead, htail⟩ := append_inj h hl
  exact ⟨numeral_inj hb hbase hn hm hhead, htail⟩

-- ==== reading back

def digitValue (c : Char) : Option Nat :=
  if c.isDigit then some (c.toNat - 48) else none

theorem digitValue_digitChar {d : Nat} (hd : d < 10) : digitValue (Nat.digitChar d) = some d := by
  have hall : ∀ d : Fin 10, digitValue (Nat.digitChar d) = some d.val := by decide
  exact hall ⟨d, hd⟩

/-- `w` digits off the front of a text, after those that came to `acc`. -/
def readDecimal (acc : Nat) : Nat → List Char → Option (Nat × List Char)
  | 0, text => some (acc, text)
  | _ + 1, [] => none
  | w + 1, c :: text =>
    match digitValue c with
    | some d => readDecimal (10 * acc + d) w text
    | none => none

theorem readDecimal_add (acc w v : Nat) (text : List Char) : readDecimal acc (w + v) text =
      (readDecimal acc w text).bind fun front => readDecimal front.1 v front.2 := by
  induction w generalizing acc text with
  | zero => simp [readDecimal]
  | succ w ih =>
    rw [Nat.add_right_comm]
    cases text with
    | nil => rfl
    | cons c text =>
      rw [readDecimal, readDecimal]
      cases digitValue c with
      | none => rfl
      | some d => exact ih (10 * acc + d) text

theorem readDecimal_numeral (acc w n : Nat) (rest : List Char) :
    readDecimal acc w (numeral 10 w n ++ rest) = some (acc * 10 ^ w + n % 10 ^ w, rest) := by
  induction w generalizing n rest with
  | zero => simp [numeral, readDecimal, Nat.mod_one]
  | succ w ih =>
    have hd := digitValue_digitChar (Nat.mod_lt n (show 0 < 10 by omega))
    rw [numeral, append_assoc, readDecimal_add, ih, Option.bind_some]
    simp only [singleton_append, readDecimal, hd]
    rw [Nat.pow_succ, Nat.mul_comm (10 ^ w) 10, Nat.mod_mul]
    have hp : acc * (10 * 10 ^ w) = 10 * (acc * 10 ^ w) := Nat.mul_left_comm _ _ _
    congr 2
    omega

end Numeral

end Synthorg.Lib
