/-!
# Decimal digits

Digits, the digits of a natural number without leading zeros, and the number
that a list of digits stands for. Main fact: writing a number and reading it
gives the number back.
-/

namespace LSystem

abbrev Digit := Fin 10

namespace Digit

def zero : Digit := ⟨0, by decide⟩

def toChar (d : Digit) : Char := Char.ofNat ('0'.toNat + d.val)

def ofChar? (c : Char) : Option Digit :=
  if '0' ≤ c ∧ c ≤ '9' then some (Fin.ofNat 10 (c.toNat - '0'.toNat)) else none

theorem ofChar?_toChar (d : Digit) : ofChar? d.toChar = some d := by
  revert d
  decide

/-- The number that digits stand for behind the digits of `value`. -/
def foldFrom (value : Nat) (digits : List Digit) : Nat :=
  digits.foldl (fun n d => n * 10 + d.val) value

def toNat (digits : List Digit) : Nat := foldFrom 0 digits

def ofNat (n : Nat) : List Digit :=
  if n < 10 then [Fin.ofNat 10 n] else ofNat (n / 10) ++ [Fin.ofNat 10 (n % 10)]

theorem ofNat_ne_nil (n : Nat) : ofNat n ≠ [] := by
  unfold ofNat
  split <;> simp

theorem toNat_append (ds : List Digit) (d : Digit) : toNat (ds ++ [d]) = toNat ds * 10 + d.val := by
  simp [toNat, foldFrom]

@[simp] theorem toNat_ofNat (n : Nat) : toNat (ofNat n) = n := by
  induction n using Nat.strongRecOn with
  | _ n ih =>
    unfold ofNat
    split
    · rename_i h
      simp [toNat, foldFrom, Nat.mod_eq_of_lt h]
    · rename_i h
      rw [toNat_append, ih (n / 10) (by omega)]
      simp only [Fin.ofNat]
      omega

/-- Exactly `count` digits: the last ones of a number, zeros in front. -/
def padded : Nat → Nat → List Digit
  | 0, _ => []
  | count + 1, n => padded count (n / 10) ++ [Fin.ofNat 10 (n % 10)]

def text (digits : List Digit) : List Char := digits.map toChar

end Digit

end LSystem
