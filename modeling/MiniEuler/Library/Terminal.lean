import Mathlib.Data.List.Basic
import Mathlib.Logic.Function.Basic

/-! One line of a terminal: a character is put under the cursor, which moves on, and
the backspace code moves the cursor left and writes nothing. -/

namespace MiniEuler.Library

structure Screen (α : Type*) where
  cells : Nat → α
  cursor : Nat

namespace Screen

variable {α : Type*} [DecidableEq α] {t : Screen α} {bs blank c : α} {l : List α}

def feed (bs : α) (t : Screen α) (c : α) : Screen α :=
  if c = bs then { t with cursor := t.cursor - 1 }
  else ⟨Function.update t.cells t.cursor c, t.cursor + 1⟩

/-- The cursor is just behind the text, with blanks to its right. -/
structure Shows (blank : α) (t : Screen α) (l : List α) : Prop where
  cursor : t.cursor = l.length
  text : ∀ k, (hk : k < l.length) → t.cells k = l[k]
  rest : ∀ k, l.length ≤ k → t.cells k = blank

theorem Shows.put (h : t.Shows blank l) (hc : c ≠ bs) : (t.feed bs c).Shows blank (l ++ [c]) := by
  rw [feed, if_neg hc, h.cursor]
  refine ⟨by simp, fun k hk => ?_, fun k hk => ?_⟩
  · by_cases hkl : k < l.length
    · rw [List.getElem_append_left hkl]
      exact (Function.update_of_ne (by omega) _ _).trans (h.text k hkl)
    · obtain rfl : k = l.length := by simp at hk; omega
      simp
  · rw [List.length_append, List.length_singleton] at hk
    exact (Function.update_of_ne (by omega) _ _).trans (h.rest k (by omega))

/-- A backspace, a blank and a backspace take the last character off the line. -/
theorem Shows.erase (h : t.Shows blank (l ++ [c])) (hb : blank ≠ bs) :
    ([bs, blank, bs].foldl (feed bs) t).Shows blank l := by
  have hcur : t.cursor = l.length + 1 := by simpa using h.cursor
  have heq : [bs, blank, bs].foldl (feed bs) t =
      ⟨Function.update t.cells l.length blank, l.length⟩ := by
    simp [feed, hb, hcur]
  rw [heq]
  refine ⟨rfl, fun k hk => ?_, fun k hk => ?_⟩
  · have ht := h.text k (by simp; omega)
    rw [List.getElem_append_left hk] at ht
    exact (Function.update_of_ne (by omega) _ _).trans ht
  · by_cases hkl : k = l.length
    · subst hkl
      exact Function.update_self ..
    · exact (Function.update_of_ne hkl _ _).trans (h.rest k (by simp; omega))

end Screen

end MiniEuler.Library
