import Mathlib.Data.Nat.Bitwise

/-! Fields of equal width packed into a word. A field is written with a mask and a shift, as C code
does it, and by any value: what does not fit the field spills into the fields above it. -/

namespace MiniEuler.Library

variable {n w i j : Nat} {x v : BitVec n}

def field (w i : Nat) (x : BitVec n) : BitVec w := x.extractLsb' (w * i) w

/-- `x &= ~(mask << shift); x |= v << shift` for the `i`-th field. -/
def putField (w i : Nat) (x v : BitVec n) : BitVec n :=
  x &&& ~~~((BitVec.allOnes w).setWidth n <<< (w * i)) ||| v <<< (w * i)

theorem getLsbD_field {k : Nat} (hk : k < w) : (field w i x).getLsbD k = x.getLsbD (w * i + k) := by
  rw [field, BitVec.getLsbD_extractLsb', decide_eq_true hk, Bool.true_and]

theorem getLsbD_putField {p : Nat} (hp : p < n) : (putField w i x v).getLsbD p =
    if p < w * i then x.getLsbD p
    else (x.getLsbD p && !decide (p - w * i < w)) || v.getLsbD (p - w * i) := by
  have hq : p - w * i < n := by omega
  simp only [putField, BitVec.getLsbD_or, BitVec.getLsbD_and, BitVec.getLsbD_not,
    BitVec.getLsbD_shiftLeft, BitVec.getLsbD_setWidth, BitVec.getLsbD_allOnes, hp, hq,
    decide_true, Bool.true_and]
  by_cases h : p < w * i <;> simp [h]

/-- A field below keeps its value. -/
theorem field_putField_below (hn : w * (j + 1) ≤ n) (h : j < i) :
    field w j (putField w i x v) = field w j x := by
  have hle : w * (j + 1) ≤ w * i := Nat.mul_le_mul_left w h
  rw [Nat.mul_succ] at hn hle
  refine BitVec.eq_of_getLsbD_eq fun k hk => ?_
  rw [getLsbD_field hk, getLsbD_field hk, getLsbD_putField (by omega), if_pos (by omega)]

/-- The field takes what fits it. -/
theorem field_putField_self (hn : w * (i + 1) ≤ n) :
    field w i (putField w i x v) = v.setWidth w := by
  rw [Nat.mul_succ] at hn
  refine BitVec.eq_of_getLsbD_eq fun k hk => ?_
  rw [getLsbD_field hk, getLsbD_putField (by omega), if_neg (by omega),
    show w * i + k - w * i = k by omega]
  simp [hk]

/-- A field above gets what does not fit. -/
theorem field_putField_above (hn : w * (j + 1) ≤ n) (h : i < j) :
    field w j (putField w i x v) = field w j x ||| field w (j - i) v := by
  have hle : w * (i + 1) ≤ w * j := Nat.mul_le_mul_left w h
  rw [Nat.mul_succ] at hn hle
  refine BitVec.eq_of_getLsbD_eq fun k hk => ?_
  rw [getLsbD_field hk, getLsbD_putField (by omega), if_neg (by omega), BitVec.getLsbD_or,
    getLsbD_field hk, getLsbD_field hk, Nat.mul_sub, decide_eq_false (by omega),
    show w * j + k - w * i = w * j - w * i + k by omega]
  simp

end MiniEuler.Library
