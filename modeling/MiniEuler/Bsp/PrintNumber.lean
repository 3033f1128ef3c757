import MiniEuler.Bsp.PrintfBounded

/-! Integer conversions: the text that is printed denotes the argument. -/

namespace MiniEuler
open Library

/-! ## The argument and its sign -/

/-- The width of the integer type that a qualifier stands for. -/
def argBits (qualifier : CChar) : Nat :=
  if qualifier = cChar 'l' then 64 else if qualifier = cChar 'h' then 16 else 32

def argValue (qualifier : CChar) (signed : Bool) (w : BitVec 64) : Int :=
  if signed then (w.setWidth (argBits qualifier)).toInt else (w.setWidth (argBits qualifier)).toNat

def valueSign (flags : PrintFlags) (v : Int) : CChar :=
  if flags.sign then
    if v < 0 then cChar '-'
    else if flags.plus then cChar '+' else if flags.space then cSpace else cNul
  else cNul

theorem toNat_neg_of_neg {n : Nat} {x : BitVec n} (h : x.toInt < 0) :
    (-x).toNat = x.toInt.natAbs := by
  have h2 := BitVec.toInt_neg_iff.mp h
  have hlt := x.isLt
  rw [BitVec.toNat_neg, BitVec.toInt_eq_toNat_cond, if_neg (by omega),
    Nat.mod_eq_of_lt (by omega)]
  omega

theorem toNat_of_nonneg {n : Nat} {x : BitVec n} (h : ¬ x.toInt < 0) :
    x.toNat = x.toInt.natAbs := by
  have h2 := BitVec.toInt_neg_iff.not.mp h
  rw [BitVec.toInt_eq_toNat_cond, if_pos (by omega)]
  omega

/-- The switch on the qualifier, for a value of `n` bits. -/
theorem neg_setWidth {n : Nat} (hn : n ≤ 64) {num : BitVec 64} {x : BitVec n}
    (hx : num.setWidth n = x) (h : x.toInt < 0) :
    (((-num).setWidth n).setWidth 64).toNat = x.toInt.natAbs := by
  rw [BitVec.toNat_setWidth, BitVec.setWidth_neg_of_le hn, hx, toNat_neg_of_neg h,
    Nat.mod_eq_of_lt]
  rw [← toNat_neg_of_neg h]
  exact lt_of_lt_of_le (-x).isLt (Nat.pow_le_pow_right (by norm_num) hn)

/-- What `get sign` does with a value: the sign of a negative one, else the flags. -/
def withFlags (flags : PrintFlags) (p : CChar × BitVec 64) : CChar × BitVec 64 :=
  if p.1 ≠ cChar '-' then
    if flags.plus then (cChar '+', p.2) else if flags.space then (cSpace, p.2) else p
  else p

theorem withFlags_eq {flags : PrintFlags} (hs : flags.sign = true) {v : Int}
    {num num' : BitVec 64} (hnum : ¬ v < 0 → num.toNat = v.natAbs)
    (hnum' : v < 0 → num'.toNat = v.natAbs) :
    (withFlags flags (if v < 0 then (cChar '-', num') else (cNul, num))).1 =
        valueSign flags v ∧
      (withFlags flags (if v < 0 then (cChar '-', num') else (cNul, num))).2.toNat =
        v.natAbs := by
  have hne : cNul ≠ cChar '-' := by decide
  by_cases hv : v < 0
  · simp [withFlags, valueSign, hs, hv, hnum' hv]
  · rw [if_neg hv, withFlags, if_pos hne, valueSign, if_pos hs, if_neg hv, ← hnum hv]
    split
    · exact ⟨rfl, rfl⟩
    · split <;> exact ⟨rfl, rfl⟩

theorem numSign_arg {qualifier : CChar}
    (hq : qualifier = cNul ∨ qualifier = cChar 'h' ∨ qualifier = cChar 'l')
    (flags : PrintFlags) (w : BitVec 64) :
    (numSign (numArg qualifier flags w) qualifier flags).1 =
        valueSign flags (argValue qualifier flags.sign w) ∧
      (numSign (numArg qualifier flags w) qualifier flags).2.toNat =
        (argValue qualifier flags.sign w).natAbs := by
  cases hs : flags.sign with
  | false =>
    have hsign : numSign (numArg qualifier flags w) qualifier flags =
        (cNul, numArg qualifier flags w) := by
      simp [numSign, hs]
    rw [hsign]
    refine ⟨by simp [valueSign, hs], ?_⟩
    have hnum : numArg qualifier flags w = (w.setWidth (argBits qualifier)).setWidth 64 := by
      rcases hq with rfl | rfl | rfl
      · rfl
      · simp [numArg, argBits, hs, show cChar 'h' ≠ cChar 'l' by decide]
      · simp [numArg, argBits]
    have hbits : argBits qualifier ≤ 64 := by
      unfold argBits
      split_ifs <;> omega
    simp only [hnum, argValue, Bool.false_eq_true, if_false, Int.natAbs_natCast]
    rw [BitVec.toNat_setWidth, Nat.mod_eq_of_lt]
    exact lt_of_lt_of_le (BitVec.isLt _) (Nat.pow_le_pow_right (by norm_num) hbits)
  | true =>
    have hvalue : argValue qualifier true w = (w.setWidth (argBits qualifier)).toInt := rfl
    rw [hvalue]
    rcases hq with rfl | rfl | rfl
    · -- An `int`.
      have hnum : numArg cNul flags w = (w.setWidth 32).setWidth 64 := rfl
      have hlow : ((w.setWidth 32).setWidth 64).setWidth 32 = w.setWidth 32 := by
        simp
      have hsign : numSign (numArg cNul flags w) cNul flags = withFlags flags
          (if (w.setWidth 32).toInt < 0 then
            (cChar '-', ((-((w.setWidth 32).setWidth 64)).setWidth 32).setWidth 64)
          else (cNul, (w.setWidth 32).setWidth 64)) := by
        rw [numSign, if_pos hs, hnum, hlow]
        rfl
      rw [hsign]
      refine withFlags_eq hs (fun hv => ?_) fun hv => neg_setWidth (by norm_num) hlow hv
      rw [← toNat_of_nonneg hv, BitVec.toNat_setWidth, Nat.mod_eq_of_lt]
      exact lt_of_lt_of_le (BitVec.isLt _) (by norm_num)
    · -- A `short`, with its sign in the bits above.
      have hl : cChar 'h' ≠ cChar 'l' := by decide
      have hnum : numArg (cChar 'h') flags w = (w.setWidth 16).signExtend 64 := by
        rw [numArg, if_neg hl, if_pos rfl, if_pos hs]
      have hlow : ((w.setWidth 16).signExtend 64).setWidth 16 = w.setWidth 16 := by
        ext i hi
        simp [BitVec.getElem_signExtend, hi, show i < 64 by omega]
      have hsign : numSign (numArg (cChar 'h') flags w) (cChar 'h') flags = withFlags flags
          (if (w.setWidth 16).toInt < 0 then
            (cChar '-', ((-((w.setWidth 16).signExtend 64)).setWidth 16).setWidth 64)
          else (cNul, (w.setWidth 16).signExtend 64)) := by
        rw [numSign, if_pos hs, if_pos rfl, hnum, hlow]
        rfl
      rw [hsign]
      refine withFlags_eq hs (fun hv => ?_) fun hv => neg_setWidth (by norm_num) hlow hv
      have hmsb : (w.setWidth 16).msb = false := by
        rw [BitVec.msb_eq_false_iff_two_mul_lt]
        have := BitVec.toInt_neg_iff.not.mp hv
        omega
      rw [BitVec.signExtend_eq_setWidth_of_msb_false hmsb, ← toNat_of_nonneg hv,
        BitVec.toNat_setWidth, Nat.mod_eq_of_lt]
      exact lt_of_lt_of_le (BitVec.isLt _) (by norm_num)
    · -- A `long`.
      have hh : cChar 'l' ≠ cChar 'h' := by decide
      have hsign : numSign (numArg (cChar 'l') flags w) (cChar 'l') flags = withFlags flags
          (if w.toInt < 0 then (cChar '-', -w) else (cNul, w)) := by
        rw [numSign, if_pos hs, if_neg hh, if_pos (.inr rfl), numArg, if_pos rfl]
        rfl
      have hlow : (w.setWidth (argBits (cChar 'l'))).toInt = w.toInt := by
        rw [show argBits (cChar 'l') = 64 by decide, BitVec.setWidth_eq]
      rw [hsign, hlow]
      exact withFlags_eq hs toNat_of_nonneg toNat_neg_of_neg

/-! ## Reading digits -/

def digitValue (c : CChar) : Option Nat :=
  if isDigit c then some (c.toNat - 48)
  else if 97 ≤ c.toNat ∧ c.toNat ≤ 102 then some (c.toNat - 87)
  else if 65 ≤ c.toNat ∧ c.toNat ≤ 70 then some (c.toNat - 55)
  else none

def IsDigitOf (base : Nat) (c : CChar) : Prop := ∃ v, digitValue c = some v ∧ v < base

def readDigits (base : Nat) (ds : List CChar) : Nat :=
  ds.foldl (fun n c => base * n + (digitValue c).getD 0) 0

theorem digitValue_digitChar (large : Bool) {d : Nat} (hd : d < 16) :
    digitValue (digitChar large d) = some d := by
  revert d
  cases large <;> decide

theorem readDigits_append (base : Nat) (ds : List CChar) (c : CChar) :
    readDigits base (ds ++ [c]) = base * readDigits base ds + (digitValue c).getD 0 := by
  simp [readDigits]

theorem readDigits_zeros (base n : Nat) (ds : List CChar) :
    readDigits base (List.replicate n (cChar '0') ++ ds) = readDigits base ds := by
  induction n with
  | zero => rfl
  | succ n ih =>
    rw [← ih]
    have hz : (digitValue (cChar '0')).getD 0 = 0 := by decide
    simp [readDigits, List.replicate_succ, hz]

theorem readDigits_zero {base : Nat} {ds : List CChar} (h : ∀ c ∈ ds, c = cChar '0') :
    readDigits base ds = 0 := by
  rw [List.eq_replicate_of_mem h, ← List.append_nil (List.replicate _ _), readDigits_zeros]
  rfl

theorem readDigits_map (large : Bool) {base : Nat} (hb' : base ≤ 16) {ds : List Nat}
    (hds : ∀ d ∈ ds, d < base) :
    readDigits base (ds.map (digitChar large)).reverse = Nat.ofDigits base ds := by
  induction ds with
  | nil => rfl
  | cons d ds ih =>
    obtain ⟨hd, hds⟩ := List.forall_mem_cons.mp hds
    rw [List.map_cons, List.reverse_cons, readDigits_append, ih hds,
      digitValue_digitChar large (by omega), Nat.ofDigits_cons, Option.getD_some]
    omega

/-- The digits of a number read as the number. -/
theorem readDigits_numDigits (large : Bool) {base : Nat} (hb : 2 ≤ base) (hb' : base ≤ 16)
    (num : Nat) : readDigits base (numDigits large base num).reverse = num := by
  by_cases h : num = 0
  · subst h
    simp [numDigits, readDigits, show (digitValue (cChar '0')).getD 0 = 0 by decide]
  · rw [numDigits, if_neg h, readDigits_map large hb' fun d hd => Nat.digits_lt_base hb hd,
      Nat.ofDigits_digits]

theorem numDigits_isDigitOf (large : Bool) {base : Nat} (hb : 2 ≤ base) (hb' : base ≤ 16)
    (num : Nat) : ∀ c ∈ numDigits large base num, IsDigitOf base c := by
  intro c hc
  by_cases h : num = 0
  · rw [numDigits, if_pos h, List.mem_singleton] at hc
    exact ⟨0, by rw [hc]; decide, by omega⟩
  · rw [numDigits, if_neg h, List.mem_map] at hc
    obtain ⟨d, hd, rfl⟩ := hc
    have hlt := Nat.digits_lt_base hb hd
    exact ⟨d, digitValue_digitChar large (by omega), hlt⟩

/-! ## The text of a number -/

/-- The text is blanks, a sign, digits and blanks, and it stands for the value. Width and
precision are those that `print_number` is called with: -1 asks for nothing, and a negative `*`
precision has become 0. -/
structure Denotes (base : Nat) (value width precision : Int) (pre : Nat) (sign ds : List CChar)
    (post : Nat) (text : List CChar) : Prop where
  text_eq : text = List.replicate pre cSpace ++ sign ++ ds ++ List.replicate post cSpace
  sign_char : sign = [] ∨ sign = [cChar '-'] ∨ sign = [cChar '+'] ∨ sign = [cSpace]
  isDigit : ∀ c ∈ ds, IsDigitOf base c
  nonempty : ds = [] → precision = 0 ∧ value = 0
  value_eq : (if sign = [cChar '-'] then -(readDigits base ds : Int) else readDigits base ds) =
    value
  precision_le : precision ≤ ds.length
  width_le : width ≤ text.length
  width_eq : (sign.length : Int) + ds.length ≤ width → (text.length : Int) = width

/-- The sign as text. -/
def signText (sign : CChar) : List CChar := if sign = cNul then [] else [sign]

theorem signText_length (sign : CChar) : ((signText sign).length : Int) = signWidth sign := by
  unfold signText signWidth
  split <;> rfl

/-- The field is filled on one side of the number, or with zeros in front of its digits. -/
theorem numberText_shape (type : PrintFlags) (sign : CChar) (digits : List CChar)
    (s precision : Int) : ∃ pre zeros post,
    numberText type sign digits s precision = List.replicate pre cSpace ++ signText sign ++
      (List.replicate zeros (cChar '0') ++ if precision = 0 then [] else digits.reverse) ++
      List.replicate post cSpace ∧
    pre + zeros + post = fieldPad sign digits s precision + (precision - digits.length).toNat ∧
    (precision - digits.length).toNat ≤ zeros := by
  cases hl : type.left with
  | true =>
    refine ⟨0, (precision - digits.length).toNat, fieldPad sign digits s precision, ?_, by omega,
      le_rfl⟩
    simp [numberText, signText, hl]
  | false =>
    cases hz : type.zeropad with
    | true =>
      refine ⟨0, fieldPad sign digits s precision + (precision - digits.length).toNat, 0, ?_,
        by omega, by omega⟩
      simp [numberText, signText, hl, hz, ← List.replicate_append_replicate]
    | false =>
      refine ⟨fieldPad sign digits s precision, (precision - digits.length).toNat, 0, ?_, by omega,
        le_rfl⟩
      simp [numberText, signText, hl, hz]

theorem valueSign_cases (flags : PrintFlags) (v : Int) :
    signText (valueSign flags v) = [] ∨ signText (valueSign flags v) = [cChar '-'] ∨
      signText (valueSign flags v) = [cChar '+'] ∨ signText (valueSign flags v) = [cSpace] := by
  have h1 : cChar '-' ≠ cNul := by decide
  have h2 : cChar '+' ≠ cNul := by decide
  have h3 : cSpace ≠ cNul := by decide
  unfold valueSign signText
  split_ifs <;> simp_all

/-- The sign is a minus for the negative values only. -/
theorem valueSign_minus {flags : PrintFlags} {v : Int} (hv : flags.sign = false → 0 ≤ v) :
    signText (valueSign flags v) = [cChar '-'] ↔ v < 0 := by
  have h1 : cChar '-' ≠ cNul := by decide
  have h2 : cChar '+' ≠ cChar '-' := by decide
  have h3 : cSpace ≠ cChar '-' := by decide
  have h4 : cNul ≠ cChar '-' := by decide
  cases hs : flags.sign with
  | false => simpa [valueSign, signText, hs] using hv hs
  | true =>
    by_cases hneg : v < 0
    · simp [valueSign, signText, hs, hneg, h1]
    · unfold valueSign signText
      rw [if_pos hs, if_neg hneg]
      split_ifs <;> simp_all

/-- **With a precision other than 0, the text denotes the value.** -/
theorem denotes_of_precision {type : PrintFlags} {base : Nat} (hb : 2 ≤ base) (hb' : base ≤ 16)
    {v s precision : Int} (hv : type.sign = false → 0 ≤ v) (hp : precision ≠ 0) :
    ∃ pre sign ds post, Denotes base v s precision pre sign ds post
      (numberText type (valueSign type v) (numDigits type.large base v.natAbs) s precision) := by
  obtain ⟨pre, zeros, post, htext, hsum, hzeros⟩ := numberText_shape type (valueSign type v)
    (numDigits type.large base v.natAbs) s precision
  rw [if_neg hp] at htext
  have hpos := numDigits_pos type.large base v.natAbs
  have hlen : ((signText (valueSign type v)).length : Int) = signWidth (valueSign type v) :=
    signText_length _
  have hval := readDigits_numDigits type.large hb hb' v.natAbs
  have hdig := numDigits_isDigitOf type.large hb hb' v.natAbs
  have hcases := valueSign_cases type v
  have hminus := valueSign_minus hv
  unfold fieldPad at hsum
  generalize numDigits type.large base v.natAbs = digits at *
  generalize valueSign type v = sign at *
  refine ⟨pre, signText sign, List.replicate zeros (cChar '0') ++ digits.reverse, post, htext,
    hcases, ?_, ?_, ?_, ?_, ?_, ?_⟩
  · intro c hc
    rcases List.mem_append.mp hc with hc | hc
    · rw [List.eq_of_mem_replicate hc]
      exact ⟨0, by decide, by omega⟩
    · exact hdig c (List.mem_reverse.mp hc)
  · intro hnil
    have := congrArg List.length hnil
    simp at this
    simp [this.2] at hpos
  · rw [readDigits_zeros, hval]
    by_cases hneg : v < 0
    · rw [if_pos (hminus.mpr hneg)]
      omega
    · rw [if_neg (hminus.not.mpr hneg)]
      omega
  · simp only [List.length_append, List.length_replicate, List.length_reverse]
    omega
  · rw [htext]
    simp only [List.length_append, List.length_replicate, List.length_reverse]
    omega
  · rw [htext]
    simp only [List.length_append, List.length_replicate, List.length_reverse]
    omega

theorem not_isDigitOf_sign {type : PrintFlags} {v : Int} {base : Nat} {c : CChar}
    (hc : c ∈ signText (valueSign type v)) : ¬ IsDigitOf base c := by
  have h1 : digitValue (cChar '-') = none := by decide
  have h2 : digitValue (cChar '+') = none := by decide
  have h3 : digitValue cSpace = none := by decide
  rintro ⟨d, hd, -⟩
  rcases valueSign_cases type v with h | h | h | h <;> rw [h] at hc
  · exact absurd hc List.not_mem_nil
  · simp [List.mem_singleton.mp hc, h1] at hd
  · simp [List.mem_singleton.mp hc, h2] at hd
  · simp [List.mem_singleton.mp hc, h3] at hd

/-- A precision of 0 drops the digits of every value, so that only a field of nothing but
a sign is right. -/
theorem denotes_of_no_precision {type : PrintFlags} {base : Nat} {v s : Int} :
    (∃ pre sign ds post, Denotes base v s 0 pre sign ds post
      (numberText type (valueSign type v) (numDigits type.large base v.natAbs) s 0)) ↔
    v = 0 ∧ s ≤ signWidth (valueSign type v) := by
  obtain ⟨pre, zeros, post, htext, hsum, -⟩ := numberText_shape type (valueSign type v)
    (numDigits type.large base v.natAbs) s 0
  have hpos := numDigits_pos type.large base v.natAbs
  have hlen : ((signText (valueSign type v)).length : Int) = signWidth (valueSign type v) :=
    signText_length _
  rw [if_pos rfl, List.append_nil] at htext
  have hone : v = 0 → (numDigits type.large base v.natAbs).length = 1 := by
    rintro rfl
    rfl
  unfold fieldPad at hsum
  constructor
  · rintro ⟨pre', sign, ds, post', h⟩
    have hzeros : ∀ c ∈ ds, c = cChar '0' := by
      intro c hc
      have hspace : ¬ IsDigitOf base cSpace := by
        rintro ⟨d, hd, -⟩
        exact absurd hd (by simp [show digitValue cSpace = none by decide])
      have hmem : c ∈ List.replicate pre cSpace ++ signText (valueSign type v) ++
          List.replicate zeros (cChar '0') ++ List.replicate post cSpace := by
        rw [← htext, h.text_eq]
        simp [hc]
      rcases List.mem_append.mp hmem with hmem | hmem
      · rcases List.mem_append.mp hmem with hmem | hmem
        · rcases List.mem_append.mp hmem with hmem | hmem
          · exact absurd (List.eq_of_mem_replicate hmem ▸ h.isDigit c hc) hspace
          · exact absurd (h.isDigit c hc) (not_isDigitOf_sign hmem)
        · exact List.eq_of_mem_replicate hmem
      · exact absurd (List.eq_of_mem_replicate hmem ▸ h.isDigit c hc) hspace
    have hv : v = 0 := by
      have hval := h.value_eq
      rw [readDigits_zero hzeros] at hval
      split at hval <;> omega
    have hwidth := h.width_le
    rw [htext] at hwidth
    have hone := hone hv
    simp only [List.length_append, List.length_replicate] at hwidth
    omega
  · rintro ⟨hv, hs⟩
    have hone := hone hv
    obtain ⟨rfl, rfl, rfl⟩ : pre = 0 ∧ zeros = 0 ∧ post = 0 := by omega
    simp only [List.replicate_zero, List.nil_append, List.append_nil] at htext
    refine ⟨0, signText (valueSign type v), [], 0, by simp [htext], valueSign_cases type v,
      by simp, by simp [hv], ?_, by simp, ?_, ?_⟩
    · simp [readDigits, hv]
    · rw [htext, hlen]
      exact hs
    · rw [htext, hlen, List.length_nil]
      omega

/-! ## Integer conversions -/

def convBase (c : CChar) : Nat :=
  if c = cChar 'b' then 2
  else if c = cChar 'o' then 8 else if c = cChar 'x' ∨ c = cChar 'X' then 16 else 10

def convSigned (c : CChar) : Bool := c = cChar 'd' ∨ c = cChar 'i'

/-- The conversions of integers. -/
def intConvs : List CChar := cChars "diuxXob"

theorem numConv_eq {flags : PrintFlags} (hflags : flags.sign = false) {c : CChar}
    (hc : c ∈ intConvs) : ∃ flags', numConv flags c = some (convBase c, flags') ∧
      flags'.sign = convSigned c ∧ flags'.left = flags.left ∧ flags'.zeropad = flags.zeropad ∧
      flags'.plus = flags.plus ∧ flags'.space = flags.space := by
  have hcases : c = cChar 'd' ∨ c = cChar 'i' ∨ c = cChar 'u' ∨ c = cChar 'x' ∨ c = cChar 'X' ∨
      c = cChar 'o' ∨ c = cChar 'b' := by
    simpa [intConvs, cChars] using hc
  rcases hcases with rfl | rfl | rfl | rfl | rfl | rfl | rfl
  · exact ⟨{ flags with sign := true }, rfl, rfl, rfl, rfl, rfl, rfl⟩
  · exact ⟨{ flags with sign := true }, rfl, rfl, rfl, rfl, rfl, rfl⟩
  · exact ⟨flags, rfl, hflags, rfl, rfl, rfl, rfl⟩
  · exact ⟨flags, rfl, hflags, rfl, rfl, rfl, rfl⟩
  · exact ⟨{ flags with large := true }, rfl, hflags, rfl, rfl, rfl, rfl⟩
  · exact ⟨flags, rfl, hflags, rfl, rfl, rfl, rfl⟩
  · exact ⟨flags, rfl, hflags, rfl, rfl, rfl, rfl⟩

theorem setFlag_sign (flags : PrintFlags) (fs : List CChar) :
    (fs.foldl setFlag flags).sign = flags.sign := by
  induction fs generalizing flags with
  | nil => rfl
  | cons c fs ih =>
    rw [List.foldl_cons, ih]
    unfold setFlag
    split_ifs <;> rfl

/-- Which arguments a conversion has a sign for. -/
def hasSign (c : CChar) (flags : PrintFlags) (v : Int) : Prop :=
  convSigned c = true ∧ (v < 0 ∨ flags.plus = true ∨ flags.space = true)

instance (c : CChar) (flags : PrintFlags) (v : Int) : Decidable (hasSign c flags v) :=
  inferInstanceAs (Decidable (_ ∧ _))

theorem signWidth_valueSign {c : CChar} {flags flags' : PrintFlags} {v : Int}
    (hs : flags'.sign = convSigned c) (hp : flags'.plus = flags.plus)
    (hsp : flags'.space = flags.space) :
    signWidth (valueSign flags' v) = if hasSign c flags v then 1 else 0 := by
  have h1 : cChar '-' ≠ cNul := by decide
  have h2 : cChar '+' ≠ cNul := by decide
  have h3 : cSpace ≠ cNul := by decide
  unfold signWidth valueSign hasSign
  rw [hs, hp, hsp]
  split_ifs <;> simp_all
  omega

/-- When an integer conversion prints its argument right: the counts in the format are
below `2147483600`, there are at most 32 digits, `size` stays an `int`, and a precision
of 0 comes with the value 0 in a field of at most a sign. Width and precision are those that
`print_number` is called with, so a negative `*` precision counts as 0. -/
structure IntFits (d : Directive) (args : List VaArg) (c : CChar) (flags : PrintFlags)
    (width precision v : Int) : Prop where
  widthFits : d.width.Small ∧ d.width.StarFits args
  precisionFits : ∀ k, d.precision = some k → k.Small
  digitsFit : v.natAbs < convBase c ^ 32
  sizeFits : precision + (if hasSign c flags v then 1 else 0) +
    (if flags.left then 1 else if flags.zeropad then 2 else 3) ≤ 2 ^ 31 + width
  noPrecision : precision = 0 → v = 0 ∧ width ≤ if hasSign c flags v then 1 else 0

theorem lexQualifier_cases (f : List CChar) : (lexQualifier f).1.getD cNul = cNul ∨
    (lexQualifier f).1.getD cNul = cChar 'h' ∨ (lexQualifier f).1.getD cNul = cChar 'l' := by
  cases f with
  | nil => exact .inl rfl
  | cons c f =>
    rw [lexQualifier]
    split
    · exact .inr ‹_›
    · exact .inl rfl

theorem params_sign {d : Directive} {args : List VaArg}
    {x : PrintFlags × Int × Int × List VaArg} (h : d.params args = some x) :
    x.1.sign = false := by
  have hsign : (d.flags.foldl setFlag {}).sign = false := setFlag_sign ..
  cases hv : d.width.value args with
  | none => simp [Directive.params, hv] at h
  | some y =>
    cases hp : precisionOf d.precision y.2 with
    | none => simp [Directive.params, hv, hp] at h
    | some z =>
      obtain rfl : ((starWidth d.width (d.flags.foldl setFlag {}) y.1).2,
          (starWidth d.width (d.flags.foldl setFlag {}) y.1).1, z.1, z.2) = x := by
        simpa [Directive.params, hv, hp] using h
      unfold starWidth
      split <;> exact hsign

/-- The bounds of a width and a precision that are computed without an overflow. -/
theorem params_bounds {d : Directive} {args : List VaArg}
    {x : PrintFlags × Int × Int × List VaArg} (h : d.params args = some x)
    (hw : d.width.Small ∧ d.width.StarFits args) (hp : ∀ k, d.precision = some k → k.Small) :
    -1 ≤ x.2.1 ∧ x.2.2.1 < 2 ^ 31 := by
  cases hv : d.width.value args with
  | none => simp [Directive.params, hv] at h
  | some y =>
    cases hpv : precisionOf d.precision y.2 with
    | none => simp [Directive.params, hv, hpv] at h
    | some z =>
      obtain rfl : ((starWidth d.width (d.flags.foldl setFlag {}) y.1).2,
          (starWidth d.width (d.flags.foldl setFlag {}) y.1).1, z.1, z.2) = x := by
        simpa [Directive.params, hv, hpv] using h
      exact ⟨(starWidth_bounds hv hw.1 hw.2 _).1, precisionOf_bounds hpv hp⟩

theorem printed_int {d : Directive} {c : CChar} (hc : d.conv = some c) (hint : c ∈ intConvs)
    {args rest : List VaArg} {flags flags' : PrintFlags} {width precision : Int} {w : BitVec 64}
    (hargs : d.params args = some (flags, width, precision, .word w :: rest))
    (hconv : numConv flags c = some (convBase c, flags')) :
    d.printed args = some (.number (toNumber flags' (d.qualifier.getD cNul) (convBase c)
      (numArg (d.qualifier.getD cNul) flags' w)) width precision, rest) := by
  have hne : ∀ c ∈ intConvs, c ≠ cChar 'c' ∧ c ≠ cChar 's' ∧ c ≠ cChar 'p' ∧ c ≠ cChar '%' := by
    decide
  obtain ⟨h1, h2, h3, h4⟩ := hne c hint
  simp [Directive.printed, hargs, hc, convPrinted, h1, h2, h3, h4, hconv, vaWord]

/-- **An integer conversion denotes its argument exactly when it fits.** -/
theorem integer_formatting_iff {f : List CChar} (hf : cNul ∉ f) {d : Directive}
    (hd : lexDirective f = (d, [])) {c : CChar} (hc : d.conv = some c) (hint : c ∈ intConvs)
    {args rest : List VaArg} {flags : PrintFlags} {width precision : Int} {w : BitVec 64}
    (hargs : d.params args = some (flags, width, precision, .word w :: rest)) :
    (∃ text pre sign ds post,
      formatLoop putText (f.length + 2) (cChar '%' :: f ++ [cNul]) args [] = some text ∧
      Denotes (convBase c) (argValue (d.qualifier.getD cNul) (convSigned c) w) width precision
        pre sign ds post text) ↔
    IntFits d args c flags width precision
      (argValue (d.qualifier.getD cNul) (convSigned c) w) := by
  obtain ⟨flags', hconv, hsign, hleft, hzero, hplus, hspace⟩ :=
    numConv_eq (params_sign hargs) hint
  have hb := numConv_base hconv
  have hq : d.qualifier.getD cNul = cNul ∨ d.qualifier.getD cNul = cChar 'h' ∨
      d.qualifier.getD cNul = cChar 'l' := by
    have hd' : (lexDirective f).1 = d := by rw [hd]
    rw [← hd']
    exact lexQualifier_cases _
  obtain ⟨hs, hn⟩ := numSign_arg hq flags' w
  have hprinted := printed_int hc hint hargs hconv
  rw [hsign] at hs hn
  have hv : convSigned c = false → 0 ≤ argValue (d.qualifier.getD cNul) (convSigned c) w := by
    intro h
    rw [argValue, h]
    exact Int.natCast_nonneg _
  generalize argValue (d.qualifier.getD cNul) (convSigned c) w = v at *
  have hnumber : toNumber flags' (d.qualifier.getD cNul) (convBase c)
      (numArg (d.qualifier.getD cNul) flags' w) =
      ⟨flags', valueSign flags' v, numDigits flags'.large (convBase c) v.natAbs⟩ := by
    rw [toNumber, hs, hn]
  rw [hnumber] at hprinted
  have hwidth := signWidth_valueSign (v := v) hsign hplus hspace
  have hpct : cNul ∉ cChar '%' :: f := by
    rw [List.mem_cons, not_or]
    exact ⟨by decide, hf⟩
  have hrounds : (cChar '%' :: f).length < f.length + 2 := by simp
  have hrun := formatLoop_yields hpct hrounds
    (by rw [lexFormat_one hd]; exact itemsText_one hprinted) []
  rw [lexFormat_one hd, List.nil_append] at hrun
  have hlen : (numDigits flags'.large (convBase c) v.natAbs).length ≤ 32 ↔
      v.natAbs < convBase c ^ 32 := by
    rw [numDigits_length, ← Nat.digits_length_le_iff (by omega)]
    omega
  -- With at most 32 digits only the precision takes `size` far down.
  have hfit : ItemsFit [.directive d] args ↔ (d.width.Small ∧ d.width.StarFits args) ∧
      (∀ k, d.precision = some k → k.Small) ∧ v.natAbs < convBase c ^ 32 ∧
      precision + (if hasSign c flags v then 1 else 0) +
        (if flags.left then 1 else if flags.zeropad then 2 else 3) ≤ 2 ^ 31 + width := by
    have hsize : -1 ≤ width → (numDigits flags'.large (convBase c) v.natAbs).length ≤ 32 →
        (SizeFits flags' (valueSign flags' v)
          (numDigits flags'.large (convBase c) v.natAbs) width precision ↔
        precision + (if hasSign c flags v then 1 else 0) +
          (if flags.left then 1 else if flags.zeropad then 2 else 3) ≤ 2 ^ 31 + width) := by
      intro hw h32
      rw [SizeFits, hwidth, hleft, hzero]
      split_ifs <;> omega
    rw [itemsFit_one]
    constructor
    · intro h
      have hconv := h.conv _ hprinted
      have hb := params_bounds hargs h.width h.precision
      exact ⟨h.width, h.precision, hlen.mp hconv.1, (hsize hb.1 hconv.1).mp hconv.2⟩
    · rintro ⟨hw, hp, hdig, hsz⟩
      have hb := params_bounds hargs hw hp
      refine ⟨hw, hp, fun x hx => ?_⟩
      obtain rfl : _ = x := Option.some.inj (hprinted.symm.trans hx)
      exact ⟨hlen.mpr hdig, (hsize hb.1 (hlen.mpr hdig)).mpr hsz⟩
  have hdenotes : (∃ pre sign ds post, Denotes (convBase c) v width precision pre sign ds post
      (numberText flags' (valueSign flags' v) (numDigits flags'.large (convBase c) v.natAbs)
        width precision)) ↔
      (precision = 0 → v = 0 ∧ width ≤ if hasSign c flags v then 1 else 0) := by
    by_cases hp : precision = 0
    · rw [hp, denotes_of_no_precision, hwidth]
      exact ⟨fun h _ => h, fun h => h rfl⟩
    · exact iff_of_true (denotes_of_precision hb.1 hb.2 (by rwa [hsign]) hp) fun h => absurd h hp
  constructor
  · rintro ⟨text, pre, sign, ds, post, htext, h⟩
    have hall : ItemsFit [.directive d] args := by
      by_contra hno
      exact absurd (htext.symm.trans (hrun.2 hno)) (by simp)
    obtain rfl : _ = text := Option.some.inj ((hrun.1 hall).symm.trans htext)
    obtain ⟨hw, hp, hdig, hsz⟩ := hfit.mp hall
    exact ⟨hw, hp, hdig, hsz, hdenotes.mp ⟨pre, sign, ds, post, h⟩⟩
  · rintro ⟨hw, hp, hdig, hsz, hzero⟩
    obtain ⟨pre, sign, ds, post, h⟩ := hdenotes.mpr hzero
    exact ⟨_, pre, sign, ds, post, hrun.1 (hfit.mpr ⟨hw, hp, hdig, hsz⟩), h⟩

theorem integer_formatting_short : ∃ text pre sign ds post,
    formatLoop putText 6 (cChars "%-6hd" ++ [cNul]) [.word 0x18000] [] = some text ∧
      Denotes 10 (-32768) 6 (-1) pre sign ds post text := by
  have hargs : Directive.params
      ⟨cChars "-", .digits (cChars "6"), none, some (cChar 'h'), some (cChar 'd')⟩
      [.word 0x18000] = some ({ left := true }, 6, -1, [.word 0x18000]) := by decide
  exact (integer_formatting_iff (f := cChars "-6hd") (by decide) (by decide) rfl (by decide)
    hargs).mpr ⟨⟨by decide, trivial⟩, by simp, by decide, by decide, by decide⟩

/-- The 33 binary digits of `2 ^ 32` do not fit in `tmp`, and a precision of 0 drops the
digits of 5. -/
theorem integer_formatting_fails :
    (¬ ∃ text pre sign ds post,
      formatLoop putText 4 (cChars "%lb" ++ [cNul]) [.word 0x100000000] [] = some text ∧
        Denotes 2 0x100000000 (-1) (-1) pre sign ds post text) ∧
    ¬ ∃ text pre sign ds post,
      formatLoop putText 5 (cChars "%.0d" ++ [cNul]) [.word 5] [] = some text ∧
        Denotes 10 5 (-1) 0 pre sign ds post text := by
  constructor
  · rintro ⟨text, pre, sign, ds, post, hrun, -⟩
    have hnone : formatLoop putText 4 (cChars "%lb" ++ [cNul]) [.word 0x100000000] [] = none := by
      decide
    exact absurd (hnone.symm.trans hrun) (by simp)
  · rintro ⟨text, pre, sign, ds, post, hrun, h⟩
    have hempty : formatLoop putText 5 (cChars "%.0d" ++ [cNul]) [.word 5] [] = some [] := by
      decide +kernel
    obtain rfl : [] = text := Option.some.inj (hempty.symm.trans hrun)
    have hds : ds = [] := by
      have hnil := h.text_eq.symm
      simp only [List.append_eq_nil_iff] at hnil
      exact hnil.1.2
    exact absurd (h.nonempty hds).2 (by norm_num)

end MiniEuler
