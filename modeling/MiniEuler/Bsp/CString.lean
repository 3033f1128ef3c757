import Mathlib.Data.BitVec
import Mathlib.Data.List.TakeWhile

/-! Characters and strings of C. A pointer into an object is the list of the
characters from there to the end of the object, and an access outside the object has
no result. -/

namespace MiniEuler

abbrev CChar := BitVec 8

def cChar (c : Char) : CChar := BitVec.ofNat 8 c.toNat

def cChars (s : String) : List CChar := s.toList.map cChar

def cNul : CChar := 0

def cSpace : CChar := 32

/-- The text that ends at the first NUL. -/
def cText (m : List CChar) : List CChar := m.takeWhile (· ≠ cNul)

/-- `m[i] = c` -/
def storeAt (m : List CChar) (i : Nat) (c : CChar) : Option (List CChar) :=
  if i < m.length then some (m.set i c) else none

theorem cText_append {t : List CChar} (ht : cNul ∉ t) (g : List CChar) :
    cText (t ++ cNul :: g) = t := by
  have hpos : ∀ a ∈ t, decide (a ≠ cNul) = true := by
    intro a ha
    simpa using fun e : a = cNul => ht (e ▸ ha)
  rw [cText, List.takeWhile_append_of_pos hpos]
  simp

end MiniEuler
