import Mathlib.Data.Nat.Digits.Lemmas
import MiniEuler.Bsp.Printf
import MiniEuler.Library.Sink

/-! The text that `print_number` gives to a sink, and when it has one. -/

namespace MiniEuler
open Library

variable {l : List CChar} {c : CChar}

theorem cInt_eq_some {x : Int} (h : -2 ^ 31 ≤ x) (h' : x < 2 ^ 31) : cInt x = some x :=
  if_pos ⟨h, h'⟩

theorem padLoop_text (c : CChar) (lo size : Int) (l : List CChar) :
    padLoop putText c lo size l = (cInt (min lo size - 1)).map fun size' =>
      (l ++ List.replicate (size - lo).toNat c, size') := by
  induction h : (size - lo).toNat generalizing size l with
  | zero =>
    rw [padLoop, if_neg (by omega), min_eq_right (by omega)]
    cases cInt (size - 1) <;> simp
  | succ n ih =>
    rw [padLoop, if_pos (by omega), putText_eq]
    simp only [Option.bind_eq_bind, Option.bind_some]
    rw [ih (size - 1) (l ++ [c]) (by omega), min_eq_left (by omega), min_eq_left (by omega)]
    simp [List.replicate_succ]

theorem padPreLoop_text (c : CChar) (size : Int) (l : List CChar) :
    padPreLoop putText c size l = (cInt (min 1 size - 1)).map fun size' =>
      (l ++ List.replicate (size - 1).toNat c, size') := by
  induction h : (size - 1).toNat generalizing size l with
  | zero =>
    rw [padPreLoop, if_neg (by omega), min_eq_right (by omega)]
    cases cInt (size - 1) <;> simp
  | succ n ih =>
    rw [padPreLoop, if_pos (by omega), putText_eq]
    simp only [Option.bind_eq_bind, Option.bind_some]
    rw [ih (size - 1) (l ++ [c]) (by omega), min_eq_left (by omega), min_eq_left (by omega)]
    simp [List.replicate_succ]

theorem putChars_text (cs l : List CChar) : putChars putText cs l = some (l ++ cs) := by
  induction cs generalizing l with
  | nil => simp [putChars]
  | cons c cs ih => simp [putChars, ih]

/-! ## The digits -/

def digitTable (large : Bool) : List CChar := if large then largeDigits else smallDigits

theorem digitTable_length (large : Bool) : (digitTable large).length = 16 := by
  cases large <;> rfl

/-- The character of a digit. -/
def digitChar (large : Bool) (d : Nat) : CChar := (digitTable large).getD d cNul

/-- `tmp`, the digits from the last one on. -/
def numDigits (large : Bool) (base num : Nat) : List CChar :=
  if num = 0 then [cChar '0'] else (base.digits num).map (digitChar large)

theorem digitLoop_eq (large : Bool) {base : Nat} (hb : 2 ≤ base) (hb' : base ≤ 16)
    (room num : Nat) (tmp : List CChar) :
    digitLoop (digitTable large) base room num tmp =
      if (base.digits num).length ≤ room then
        some (tmp ++ (base.digits num).map (digitChar large))
      else none := by
  induction room generalizing num tmp with
  | zero =>
    rw [digitLoop]
    by_cases h : num = 0
    · simp [h]
    · rw [if_neg h, if_neg (by simpa [Nat.digits_eq_nil_iff_eq_zero] using h)]
  | succ room ih =>
    rw [digitLoop]
    by_cases h : num = 0
    · simp [h]
    · have hd : num % base < (digitTable large).length := by
        rw [digitTable_length]
        exact lt_of_lt_of_le (Nat.mod_lt _ (by omega)) hb'
      have hget : (digitTable large)[num % base]? = some (digitChar large (num % base)) := by
        rw [digitChar, List.getD_eq_getElem?_getD, List.getElem?_eq_getElem hd, Option.getD_some]
      rw [if_neg h, hget, Nat.digits_def' (by omega) (by omega)]
      simp [ih]

theorem numDigits_length (large : Bool) (base num : Nat) :
    (numDigits large base num).length = max 1 (base.digits num).length := by
  by_cases h : num = 0
  · simp [numDigits, h]
  · have : (base.digits num).length ≠ 0 := by simpa [Nat.digits_eq_nil_iff_eq_zero] using h
    rw [numDigits, if_neg h, List.length_map]
    omega

theorem numDigits_pos (large : Bool) (base num : Nat) : 0 < (numDigits large base num).length := by
  rw [numDigits_length]
  omega

/-- `tmp` as `print_number` fills it. -/
theorem numTmp_eq (large : Bool) {base : Nat} (hb : 2 ≤ base) (hb' : base ≤ 16)
    (num : BitVec 64) : numTmp (digitTable large) base num =
      if (numDigits large base num.toNat).length ≤ 32 then some (numDigits large base num.toNat)
      else none := by
  rw [numTmp]
  by_cases h : num = 0
  · subst h
    simp [numDigits]
  · have h' : num.toNat ≠ 0 := fun e => h (BitVec.eq_of_toNat_eq (by simpa using e))
    rw [if_neg h, digitLoop_eq large hb hb', numDigits, if_neg h', List.length_map,
      List.nil_append]

/-! ## The number -/

/-- One for a sign. -/
def signWidth (sign : CChar) : Int := if sign = cNul then 0 else 1

/-- The blanks or zeros that fill the field. -/
def fieldPad (sign : CChar) (digits : List CChar) (s precision : Int) : Nat :=
  (s - max precision digits.length - signWidth sign).toNat

/-- What `print_number` prints, with the digits from the last one on. -/
def numberText (type : PrintFlags) (sign : CChar) (digits : List CChar) (s precision : Int) :
    List CChar :=
  let pad := fieldPad sign digits s precision
  let zeros := (precision - digits.length).toNat
  (if type.left || type.zeropad then [] else List.replicate pad cSpace) ++
    (if sign = cNul then [] else [sign]) ++
    (if !type.left && type.zeropad then List.replicate pad (cChar '0') else []) ++
    List.replicate zeros (cChar '0') ++ (if precision = 0 then [] else digits.reverse) ++
    (if type.left then List.replicate pad cSpace else [])

/-- `size` stays an `int`. The loops and the sign take one off each. -/
def SizeFits (type : PrintFlags) (sign : CChar) (digits : List CChar) (s precision : Int) : Prop :=
  -2 ^ 31 ≤ s - max precision digits.length - signWidth sign -
    (if type.left then 1 else if type.zeropad then 2 else 3)

instance (type : PrintFlags) (sign : CChar) (digits : List CChar) (s precision : Int) :
    Decidable (SizeFits type sign digits s precision) := inferInstanceAs (Decidable (_ ≤ _))

theorem cInt_map_bind {α β : Type} (x : Int) (f : Int → α) (g : α → Option β) :
    ((cInt x).map f).bind g =
      if -2 ^ 31 ≤ x ∧ x < 2 ^ 31 then g (f x) else none := by
  rw [cInt]
  split <;> rfl

theorem cInt_bind {β : Type} (x : Int) (g : Int → Option β) :
    (cInt x).bind g = if -2 ^ 31 ≤ x ∧ x < 2 ^ 31 then g x else none := by
  rw [cInt]
  split <;> rfl

theorem ite_some_bind {α β : Type} {p : Prop} [Decidable p] (a : α) (g : α → Option β) :
    (if p then some a else none).bind g = if p then g a else none := by
  split <;> rfl

/-- The part of `print_number` behind `size -= precision`. -/
theorem numPrint_text (type : PrintFlags) (sign : CChar) {digits : List CChar}
    {s precision : Int} (hlen : 0 < digits.length) (hlen' : digits.length ≤ 32) (hs : -1 ≤ s)
    (hs' : s < 2 ^ 31) (hp' : precision < 2 ^ 31) (l : List CChar) :
    ((numBlanks putText type sign (s - max precision digits.length) l).bind fun x =>
      (numPutSign putText sign x.2 x.1).bind fun x =>
      (numFill putText type (if type.zeropad then cChar '0' else cSpace) x.2 x.1).bind fun x =>
      (padLoop putText (cChar '0') digits.length (max precision digits.length) x.1).bind fun y =>
      (putChars putText (if precision ≠ 0 then digits.reverse else []) y.1).bind fun buf =>
      (padLoop putText cSpace 0 x.2 buf).bind fun x => some x.1) =
    if SizeFits type sign digits s precision then
      some (l ++ numberText type sign digits s precision)
    else none := by
  have hsub : (max precision digits.length - (digits.length : Int)).toNat =
      (precision - digits.length).toNat := by omega
  have hzero (x : Int) : (min 0 x - 1).toNat = 0 := by omega
  have hzeros (n m : Nat) (t : List CChar) :
      List.replicate n (cChar '0') ++ (List.replicate m (cChar '0') ++ t) =
        List.replicate (n + m) (cChar '0') ++ t := by
    rw [← List.append_assoc, List.replicate_append_replicate]
  obtain ⟨P, hP⟩ : ∃ P, max precision (digits.length : Int) = P := ⟨_, rfl⟩
  have hP' : (digits.length : Int) ≤ P ∧ P < 2 ^ 31 := by omega
  by_cases hfit : SizeFits type sign digits s precision
  · rw [if_pos hfit, numberText, fieldPad]
    unfold SizeFits at hfit
    simp only [numBlanks, numPutSign, numFill, padLoop_text, putChars_text, hsub,
      Option.bind_eq_bind, Option.bind_some, cInt_map_bind, cInt_bind]
    rw [hP] at hfit ⊢
    obtain ⟨zeropad, _, _, _, left, _, _⟩ := type
    by_cases hsign : sign = cNul
    · cases left <;> cases zeropad <;>
        simp [hsign, signWidth, cInt_map_bind, hzero, hzeros] at hfit ⊢ <;> omega
    · by_cases hpos : P < s
      · cases left <;> cases zeropad <;>
          simp [hsign, signWidth, cInt_map_bind, ite_some_bind, hzero, hzeros, hpos]
            at hfit ⊢ <;> omega
      · cases left <;> cases zeropad <;>
          simp [hsign, signWidth, cInt_map_bind, ite_some_bind, hzero, hzeros, hpos]
            at hfit ⊢ <;> omega
  · rw [if_neg hfit]
    unfold SizeFits at hfit
    simp only [numBlanks, numPutSign, numFill, padLoop_text, putChars_text, hsub,
      Option.bind_eq_bind, Option.bind_some, cInt_map_bind, cInt_bind]
    rw [hP] at hfit ⊢
    -- Only a field that is full takes `size` this far down.
    have hpos : ¬ P < s := by
      simp only [signWidth] at hfit
      split at hfit <;> omega
    obtain ⟨zeropad, _, _, _, left, _, _⟩ := type
    by_cases hsign : sign = cNul
    · cases left <;> cases zeropad <;>
        simp [hsign, signWidth, cInt_map_bind, hzero, hzeros] at hfit ⊢ <;> omega
    · cases left <;> cases zeropad <;>
        simp [hsign, signWidth, cInt_map_bind, ite_some_bind, hzero, hzeros, hpos]
          at hfit ⊢ <;> omega

theorem printNumber_text (num : BitVec 64) (qualifier : CChar) (type : PrintFlags) {base : Nat}
    (hb : 2 ≤ base) (hb' : base ≤ 16) {s precision : Int} (hs : -1 ≤ s) (hs' : s < 2 ^ 31)
    (hp' : precision < 2 ^ 31) (l : List CChar) :
    printNumber putText l num base qualifier s precision type =
      if (numDigits type.large base (numSign num qualifier type).2.toNat).length ≤ 32 ∧
          SizeFits type (numSign num qualifier type).1
            (numDigits type.large base (numSign num qualifier type).2.toNat) s precision then
        some (l ++ numberText type (numSign num qualifier type).1
          (numDigits type.large base (numSign num qualifier type).2.toNat) s precision)
      else none := by
  have hsign : numSign num qualifier
      (if type.left then { type with zeropad := false } else type) =
      numSign num qualifier type := by
    cases type.left <;> rfl
  have htable : (if type.large then largeDigits else smallDigits) = digitTable type.large := rfl
  unfold printNumber
  simp only [hsign, htable, numTmp_eq type.large hb hb']
  generalize numSign num qualifier type = q
  obtain ⟨sign, num'⟩ := q
  have hpos := numDigits_pos type.large base num'.toNat
  generalize numDigits type.large base num'.toNat = digits at hpos
  by_cases hlen : digits.length ≤ 32
  · have hmax : (if precision < digits.length then (digits.length : Int) else precision) =
        max precision digits.length := by
      split <;> omega
    have hsize : cInt (s - max precision digits.length) =
        some (s - max precision digits.length) := cInt_eq_some (by omega) (by omega)
    have hfit : SizeFits (if type.left then { type with zeropad := false } else type) sign digits
        s precision ↔ SizeFits type sign digits s precision := by
      cases h : type.left <;> simp [SizeFits, h]
    have htext : numberText (if type.left then { type with zeropad := false } else type) sign
        digits s precision = numberText type sign digits s precision := by
      cases h : type.left <;> simp [numberText, h]
    have hprint := numPrint_text (if type.left then { type with zeropad := false } else type) sign
      hpos hlen hs hs' hp' l
    rw [if_pos hlen]
    simp only [Option.bind_eq_bind, Option.bind_some, hmax, hsize, hlen, true_and]
    rw [hprint, htext]
    exact if_congr hfit rfl rfl
  · simp [hlen]

/-! ## Characters and strings -/

def charText (flags : PrintFlags) (width : Int) (c : CChar) : List CChar :=
  let blanks := List.replicate (width - 1).toNat cSpace
  if flags.left then c :: blanks else blanks ++ [c]

theorem charText_length (flags : PrintFlags) (width : Int) (c : CChar) :
    (charText flags width c).length = (width - 1).toNat + 1 := by
  cases h : flags.left <;> simp [charText, h]

theorem convChar_text {flags : PrintFlags} {width : Int} (hw : -1 ≤ width) (hw' : width < 2 ^ 31)
    (c : CChar) (l : List CChar) :
    convChar putText flags width c l = some (l ++ charText flags width c) := by
  have hdec (x : Int) (hx : -2 ≤ x) : cInt (min 1 x - 1) = some (min 1 x - 1) :=
    cInt_eq_some (by omega) (by omega)
  have hdec' : cInt (min 1 width - 1 - 1) = some (min 1 width - 1 - 1) :=
    cInt_eq_some (by omega) (by omega)
  cases hl : flags.left
  · simp [convChar, charText, hl, padPreLoop_text, hdec width (by omega), hdec']
  · simp [convChar, charText, hl, padPreLoop_text, hdec width (by omega)]

/-- `len` for a string of the given length. -/
def strWidth (width precision : Int) (len : Nat) : Int :=
  let len := if width = -1 then (len : Int) else min width len
  if 0 < precision ∧ precision < len then precision else len

def strText (flags : PrintFlags) (width precision : Int) (t : List CChar) : List CChar :=
  let len := strWidth width precision t.length
  let blanks := List.replicate (width - len).toNat cSpace
  if flags.left then t.take len.toNat ++ blanks else blanks ++ t.take len.toNat

theorem strLen_eq {width : Int} (hw : -1 ≤ width) (hw' : width < 2 ^ 31) (t g : List CChar)
    (ht : cNul ∉ t) {n : Nat} (hn : width = -1 ∨ (n : Int) ≤ width) (hn' : (n : Int) < 2 ^ 31) :
    strLen width (t ++ cNul :: g) n =
      if width = -1 then cInt (n + t.length : Nat) else some (min width (n + t.length : Nat)) := by
  induction t generalizing n with
  | nil =>
    rw [List.nil_append, strLen, if_pos (.inr rfl)]
    split
    · exact (cInt_eq_some (by omega) (by simpa using hn')).symm
    · rw [List.length_nil, Nat.add_zero, min_eq_right (by omega)]
  | cons c t ih =>
    obtain ⟨hc, ht⟩ := not_or.mp (List.mem_cons.not.mp ht)
    rw [List.cons_append, strLen]
    by_cases hstop : (n : Int) = width
    · rw [if_pos (.inl hstop), if_neg (by omega), min_eq_left (by simp; omega), hstop]
    · rw [if_neg (not_or.mpr ⟨hstop, Ne.symm hc⟩)]
      by_cases hlt : (n : Int) + 1 < 2 ^ 31
      · rw [cInt_eq_some (by omega) hlt, Option.bind_eq_bind, Option.bind_some]
        have hstep := ih ht (n := n + 1) (by omega) (by push_cast; omega)
        rw [List.length_cons, ← Nat.add_assoc, Nat.add_right_comm]
        exact_mod_cast hstep
      · have hnone : cInt ((n : Int) + 1) = none := if_neg fun h => hlt h.2
        have hnone' : cInt ((n + (c :: t).length : Nat) : Int) = none :=
          if_neg fun h => hlt (by have := h.2; simp at this; omega)
        rw [hnone, if_pos (by omega), hnone']
        rfl

theorem convStr_text (flags : PrintFlags) {width : Int} (precision : Int) (hw : -1 ≤ width)
    (hw' : width < 2 ^ 31) (s : Option (List CChar)) (t g : List CChar)
    (hs : s.getD (cChars "(NULL)" ++ [cNul]) = t ++ cNul :: g) (ht : cNul ∉ t) (l : List CChar) :
    convStr putText flags width precision s l =
      if width = -1 → t.length < 2 ^ 31 then some (l ++ strText flags width precision t)
      else none := by
  have hlen := strLen_eq hw hw' t g ht (n := 0) (by omega) (by norm_num)
  rw [Nat.cast_zero, Nat.zero_add] at hlen
  rw [convStr, hs, hlen]
  by_cases hlong : width = -1 → t.length < 2 ^ 31
  · have hsome : (if width = -1 then cInt t.length else some (min width (t.length : Int))) =
        some (if width = -1 then (t.length : Int) else min width t.length) := by
      split
      · exact cInt_eq_some (by omega) (by have := hlong ‹_›; omega)
      · rfl
    rw [if_pos hlong, hsome]
    have hdef : (if 0 < precision ∧
        precision < (if width = -1 then (t.length : Int) else min width t.length) then precision
        else if width = -1 then (t.length : Int) else min width t.length) =
        strWidth width precision t.length := rfl
    simp only [Option.bind_eq_bind, Option.bind_some, hdef, strText]
    have hbounds : 0 ≤ strWidth width precision t.length ∧
        strWidth width precision t.length ≤ t.length := by
      unfold strWidth
      dsimp only
      split <;> split at * <;> omega
    generalize strWidth width precision t.length = len at hbounds
    have htake : (t ++ cNul :: g).take len.toNat = t.take len.toNat :=
      List.take_append_of_le_length (by omega)
    have hdec : cInt (min len width - 1) = some (min len width - 1) :=
      cInt_eq_some (by omega) (by omega)
    have hdec' : cInt (min len width - 1 - 1) = some (min len width - 1 - 1) :=
      cInt_eq_some (by omega) (by omega)
    have hzero : (min len width - 1 - len).toNat = 0 := by omega
    cases hl : flags.left
    · simp [padLoop_text, putChars_text, hdec, hdec', hzero, htake]
    · simp [padLoop_text, putChars_text, hdec, htake]
  · have hw1 : width = -1 := by
      by_contra h
      exact hlong fun h' => absurd h' h
    have hnone : cInt t.length = none :=
      if_neg fun h => hlong fun _ => by have := h.2; omega
    rw [if_neg hlong, if_pos hw1, hnone]
    rfl

end MiniEuler
