/-
The order of timestamps as text.

A UTC timestamp in ISO 8601 is its whole seconds, in digits of fixed width, and
then a fraction of six digits, if it is not zero, and the offset. Texts are
compared character by character, and a text without a fraction goes on with the
offset where one with a fraction goes on with a dot. The order is that of the
instants all the same, since a plus comes before a dot.
-/
import Mathlib.Data.List.Lex

namespace Synthorg.Lib

open List

namespace IsoText

def digit (d : Nat) : Char := Char.ofNat (48 + d)

/-- `+00:00`. -/
def offset : List Char := ['+', '0', '0', ':', '0', '0']

def digits (micros : Nat) : List Char :=
  [digit (micros / 100000 % 10), digit (micros / 10000 % 10), digit (micros / 1000 % 10),
    digit (micros / 100 % 10), digit (micros / 10 % 10), digit (micros % 10)]

def suffix (micros : Nat) : List Char :=
  if micros = 0 then offset else '.' :: (digits micros ++ offset)

/-- The text of the first instant, in microseconds, comes before that of the second. -/
def before (a b : Int) : Bool :=
  a / 1000000 < b / 1000000 ||
    a / 1000000 == b / 1000000 && suffix (a % 1000000).toNat < suffix (b % 1000000).toNat

theorem digit_lt {d e : Nat} (hd : d < 10) (he : e < 10) : digit d < digit e ↔ d < e := by
  have h : ∀ d e : Fin 10, digit d < digit e ↔ d.val < e.val := by decide
  exact h ⟨d, hd⟩ ⟨e, he⟩

theorem digit_inj {d e : Nat} (hd : d < 10) (he : e < 10) : digit d = digit e ↔ d = e := by
  have h : ∀ d e : Fin 10, digit d = digit e ↔ d.val = e.val := by decide
  exact h ⟨d, hd⟩ ⟨e, he⟩

theorem cons_digit_lt {d e : Nat} {xs ys : List Char} (hd : d < 10) (he : e < 10) :
    digit d :: xs < digit e :: ys ↔ d < e ∨ d = e ∧ xs < ys := by
  rw [cons_lt_cons_iff, digit_lt hd he, digit_inj hd he]

theorem digit_step (m : Nat) {a b k : Nat} (hm : 0 < m) (hk : k = m * 10) :
    (a / m % 10 < b / m % 10 ∨ a / m % 10 = b / m % 10 ∧ a % m < b % m) ↔ a % k < b % k := by
  subst hk
  rw [Nat.mod_mul, Nat.mod_mul]
  have ha := Nat.mod_lt a hm
  have hb := Nat.mod_lt b hm
  rcases Nat.lt_trichotomy (a / m % 10) (b / m % 10) with hlt | heq | hgt
  · have hmul := Nat.mul_le_mul_left m (Nat.succ_le_of_lt hlt)
    rw [Nat.mul_succ] at hmul
    exact iff_of_true (.inl hlt) (by omega)
  · rw [heq]
    omega
  · have hmul := Nat.mul_le_mul_left m (Nat.succ_le_of_lt hgt)
    rw [Nat.mul_succ] at hmul
    exact iff_of_false (by omega) (by omega)

theorem suffix_lt {a b : Nat} (ha : a < 1000000) (hb : b < 1000000) :
    suffix a < suffix b ↔ a < b := by
  unfold suffix
  split
  next hzero =>
    split
    next hzero' =>
      subst hzero hzero'
      decide
    next hne =>
      have hpos : a < b := by omega
      exact iff_of_true (cons_lt_cons_iff.2 (.inl (by decide))) hpos
  next hne =>
    split
    next hzero =>
      refine iff_of_false (fun hlt => ?_) (by omega)
      rcases cons_lt_cons_iff.1 hlt with hlt | ⟨heq, -⟩
      · revert hlt
        decide
      · revert heq
        decide
    · have hmod : ∀ n : Nat, n % 10 < 10 := fun n => Nat.mod_lt n (by decide)
      rw [cons_lt_cons_iff]
      simp only [digits, cons_append, nil_append, cons_digit_lt (hmod _) (hmod _)]
      have hoffs : ¬ offset < offset := by decide
      have hdot : ¬ '.' < '.' := by decide
      simp only [hoffs, hdot, and_false, or_false, true_and, false_or]
      rw [digit_step 10 (by decide) rfl, digit_step 100 (by decide) rfl,
        digit_step 1000 (by decide) rfl, digit_step 10000 (by decide) rfl,
        digit_step 100000 (by decide) rfl, Nat.mod_eq_of_lt ha, Nat.mod_eq_of_lt hb]

theorem before_iff (a b : Int) : before a b = true ↔ a < b := by
  have ha : (a % 1000000).toNat < 1000000 := by omega
  have hb : (b % 1000000).toNat < 1000000 := by omega
  simp only [before, Bool.or_eq_true, Bool.and_eq_true, decide_eq_true_eq, beq_iff_eq,
    suffix_lt ha hb]
  omega

end IsoText

end Synthorg.Lib
