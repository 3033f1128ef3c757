import MiniEuler.Bsp.PrintfText

/-! Format strings. A format is a list of characters and directives, and its text is
given by its items; the code gives this text to a sink as long as no `int` overflows. -/

namespace MiniEuler
open Library

/-- How a width or a precision is given. -/
inductive Count
  | omitted
  | digits (ds : List CChar)
  | star
  deriving DecidableEq, Repr

/-- What stands behind a `%`; `precision` is `none` without a period and `conv` is
`none` at the end of the format. -/
structure Directive where
  flags : List CChar
  width : Count
  precision : Option Count
  qualifier : Option CChar
  conv : Option CChar
  deriving DecidableEq, Repr

inductive Item
  | char (c : CChar)
  | directive (d : Directive)
  deriving DecidableEq, Repr

def isFlag (c : CChar) : Bool :=
  c = cChar '-' ∨ c = cChar '+' ∨ c = cSpace ∨ c = cChar '#' ∨ c = cChar '0'

def lexCount : List CChar → Count × List CChar
  | [] => (.omitted, [])
  | c :: f =>
    if isDigit c then (.digits ((c :: f).takeWhile isDigit), (c :: f).dropWhile isDigit)
    else if c = cChar '*' then (.star, f)
    else (.omitted, c :: f)

def lexPrecision : List CChar → Option Count × List CChar
  | [] => (none, [])
  | c :: f => if c = cChar '.' then ((lexCount f).1, (lexCount f).2) else (none, c :: f)

def lexQualifier : List CChar → Option CChar × List CChar
  | [] => (none, [])
  | c :: f => if c = cChar 'h' ∨ c = cChar 'l' then (some c, f) else (none, c :: f)

/-- The directive at the head of what stands behind a `%`, and the rest. -/
def lexDirective (f : List CChar) : Directive × List CChar :=
  let (width, g) := lexCount (f.dropWhile isFlag)
  let (precision, g) := lexPrecision g
  let (qualifier, g) := lexQualifier g
  (⟨f.takeWhile isFlag, width, precision, qualifier, g.head?⟩, g.tail)

/-! ## Lexing keeps the characters -/

def Count.text : Count → List CChar
  | .omitted => []
  | .digits ds => ds
  | .star => [cChar '*']

def Directive.text (d : Directive) : List CChar :=
  d.flags ++ d.width.text ++ (d.precision.elim [] fun k => cChar '.' :: k.text) ++
    d.qualifier.toList ++ d.conv.toList

theorem lexCount_text (f : List CChar) : (lexCount f).1.text ++ (lexCount f).2 = f := by
  cases f with
  | nil => rfl
  | cons c f =>
    rw [lexCount]
    split
    · exact List.takeWhile_append_dropWhile
    · split
      · simp [Count.text, *]
      · rfl

theorem lexPrecision_text (f : List CChar) :
    ((lexPrecision f).1.elim [] fun k => cChar '.' :: k.text) ++ (lexPrecision f).2 = f := by
  cases f with
  | nil => rfl
  | cons c f =>
    rw [lexPrecision]
    split
    · simp [lexCount_text, *]
    · rfl

theorem lexQualifier_text (f : List CChar) :
    (lexQualifier f).1.toList ++ (lexQualifier f).2 = f := by
  cases f with
  | nil => rfl
  | cons c f =>
    rw [lexQualifier]
    split <;> simp

/-- **The directive and the rest are the characters that were read.** -/
theorem lexDirective_text (f : List CChar) : (lexDirective f).1.text ++ (lexDirective f).2 = f := by
  have hconv (g : List CChar) : g.head?.toList ++ g.tail = g := by cases g <;> rfl
  simp only [lexDirective, Directive.text, List.append_assoc]
  rw [hconv, lexQualifier_text, lexPrecision_text, lexCount_text, List.takeWhile_append_dropWhile]

theorem lexDirective_length (f : List CChar) : (lexDirective f).2.length ≤ f.length := by
  have h := congrArg List.length (lexDirective_text f)
  rw [List.length_append] at h
  omega

def lexFormat : List CChar → List Item
  | [] => []
  | c :: f =>
    if c = cChar '%' then .directive (lexDirective f).1 :: lexFormat (lexDirective f).2
    else .char c :: lexFormat f
termination_by f => f.length
decreasing_by
  · have := lexDirective_length f
    simp
    omega
  · simp

/-! ## The text of a format -/

def setFlag (flags : PrintFlags) (c : CChar) : PrintFlags :=
  if c = cChar '-' then { flags with left := true }
  else if c = cChar '+' then { flags with plus := true }
  else if c = cSpace then { flags with space := true }
  else if c = cChar '#' then { flags with special := true }
  else { flags with zeropad := true }

def decimalFrom (n : Nat) (ds : List CChar) : Nat :=
  ds.foldl (fun n c => 10 * n + (c.toNat - 48)) n

/-- The number that digits stand for. -/
def decimal (ds : List CChar) : Nat := decimalFrom 0 ds

/-- The width or precision, -1 when there is none. -/
def Count.value : Count → List VaArg → Option (Int × List VaArg)
  | .omitted, args => some (-1, args)
  | .digits ds, args => some (decimal ds, args)
  | .star, args => vaInt args

/-- A negative width stands for `-` and its absolute value. -/
def starWidth (k : Count) (flags : PrintFlags) (width : Int) : Int × PrintFlags :=
  if k = .star ∧ width < 0 then (-width, { flags with left := true }) else (width, flags)

/-- A precision without a number is 0, and so is a negative one. -/
def precisionOf (k : Option Count) (args : List VaArg) : Option (Int × List VaArg) :=
  match k with
  | none => some (-1, args)
  | some k => (k.value args).map fun x => (max x.1 0, x.2)

/-- The flags, the width and the precision, and the arguments behind them. -/
def Directive.params (d : Directive) (args : List VaArg) :
    Option (PrintFlags × Int × Int × List VaArg) := do
  let (width, args) ← d.width.value args
  let (precision, args) ← precisionOf d.precision args
  let (width, flags) := starWidth d.width (d.flags.foldl setFlag {}) width
  some (flags, width, precision, args)

/-- An integer conversion of `num`: its flags, sign, digits from the last one on. -/
structure Number where
  flags : PrintFlags
  sign : CChar
  digits : List CChar
  deriving DecidableEq, Repr

def toNumber (flags : PrintFlags) (qualifier : CChar) (base : Nat) (num : BitVec 64) : Number :=
  ⟨flags, (numSign num qualifier flags).1,
    numDigits flags.large base (numSign num qualifier flags).2.toNat⟩

/-- What a conversion prints. -/
inductive Printed
  | chars (cs : List CChar)
  | char (flags : PrintFlags) (width : Int) (c : CChar)
  | str (flags : PrintFlags) (width precision : Int) (t : List CChar)
  | number (n : Number) (width precision : Int)
  deriving DecidableEq, Repr

def Printed.text : Printed → List CChar
  | .chars cs => cs
  | .char flags width c => charText flags width c
  | .str flags width precision t => strText flags width precision t
  | .number n width precision => numberText n.flags n.sign n.digits width precision

/-- No `int` overflows and no digit falls outside `tmp`. -/
def Printed.Fits : Printed → Prop
  | .chars _ | .char _ _ _ => True
  | .str _ width _ t => width = -1 → t.length < 2 ^ 31
  | .number n width precision =>
    n.digits.length ≤ 32 ∧ SizeFits n.flags n.sign n.digits width precision

/-- The argument of `%s`. -/
def strArg : Option (List CChar) → Option (List CChar)
  | none => some (cChars "(NULL)")
  | some m => if cNul ∈ m then some (cText m) else none

/-- The conversion and the arguments behind it, if the arguments match. -/
def convPrinted (flags : PrintFlags) (width precision : Int) (qualifier : CChar)
    (args : List VaArg) : Option CChar → Option (Printed × List VaArg)
  | none => some (.chars [cChar '%'], args)
  | some c =>
    if c = cChar 'c' then do
      let (w, args) ← vaWord args
      some (.char flags width (w.setWidth 8), args)
    else if c = cChar 's' then do
      let (s, args) ← vaStr args
      let t ← strArg s
      some (.str flags width precision t, args)
    else if c = cChar 'p' then do
      let (w, args) ← vaWord args
      if width = -1 then
        some (.number (toNumber { flags with zeropad := true } qualifier 16 w) 16 precision, args)
      else some (.number (toNumber flags qualifier 16 w) width precision, args)
    else if c = cChar '%' then some (.chars [cChar '%'], args)
    else
      match numConv flags c with
      | some (base, flags) => do
        let (w, args) ← vaWord args
        some (.number (toNumber flags qualifier base (numArg qualifier flags w)) width precision,
          args)
      | none => some (.chars [cChar '%', c], args)

def Directive.printed (d : Directive) (args : List VaArg) : Option (Printed × List VaArg) := do
  let (flags, width, precision, args) ← d.params args
  convPrinted flags width precision (d.qualifier.getD cNul) args d.conv

/-! ## The parser follows the directive -/

variable {f l : List CChar} {args rest : List VaArg}

theorem isDigit_iff (c : CChar) : isDigit c = true ↔ 48 ≤ c.toNat ∧ c.toNat ≤ 57 := by
  have := c.isLt
  simp only [isDigit, BitVec.ult, BitVec.toNat_sub, BitVec.toNat_setWidth, BitVec.toNat_ofNat,
    decide_eq_true_eq]
  omega

theorem isDigit_nul : isDigit cNul = false := by decide

/-- The scan of a prefix stops in front of the terminator. -/
theorem dropWhile_nul {p : CChar → Bool} (hp : p cNul = false) (f : List CChar) :
    ∃ c g, f.dropWhile p ++ [cNul] = c :: g ∧ p c = false := by
  cases h : f.dropWhile p with
  | nil => exact ⟨cNul, [], rfl, hp⟩
  | cons c g =>
    have hc := List.head_dropWhile_not p (l := f) (by simp [h])
    exact ⟨c, g ++ [cNul], rfl, by simpa [h] using hc⟩

theorem le_decimalFrom (ds : List CChar) (n : Nat) :
    n ≤ decimalFrom n ds := by
  induction ds generalizing n with
  | nil => exact le_rfl
  | cons c ds ih => exact le_trans (by omega) (ih (10 * n + (c.toNat - 48)))

theorem skipAtoi_eq {ds : List CChar} (hds : ∀ c ∈ ds, isDigit c = true) {c : CChar}
    (hc : isDigit c = false) (g : List CChar) {n : Nat} (hn : n + 48 < 2 ^ 31) :
    skipAtoi n (ds ++ c :: g) =
      if decimalFrom n ds + 48 < 2 ^ 31 then some (((decimalFrom n ds : Nat) : Int), c :: g)
      else none := by
  induction ds generalizing n with
  | nil =>
    rw [List.nil_append, skipAtoi, if_neg (by simp [hc]), decimalFrom, List.foldl_nil, if_pos hn]
  | cons d ds ih =>
    obtain ⟨hd, hds⟩ := List.forall_mem_cons.mp hds
    have hdig := (isDigit_iff d).mp hd
    rw [List.cons_append, skipAtoi, if_pos hd,
      show decimalFrom n (d :: ds) = decimalFrom (10 * n + (d.toNat - 48)) ds from rfl]
    by_cases hbig : 10 * n + (d.toNat - 48) + 48 < 2 ^ 31
    · have hstep : ((n : Int) * 10 + d.toNat - 48) = ((10 * n + (d.toNat - 48) : Nat) : Int) := by
        omega
      rw [cInt_eq_some (show -2 ^ 31 ≤ (n : Int) * 10 by omega) (by omega), Option.bind_eq_bind,
        Option.bind_some,
        cInt_eq_some (show -2 ^ 31 ≤ (n : Int) * 10 + d.toNat by omega) (by omega),
        Option.bind_some, hstep, cInt_eq_some (by omega) (by omega), Option.bind_some]
      exact ih hds hbig
    · have hle := le_decimalFrom ds (10 * n + (d.toNat - 48))
      rw [if_neg (by omega)]
      by_cases hmul : (n : Int) * 10 < 2 ^ 31
      · rw [cInt_eq_some (by omega) hmul, Option.bind_eq_bind, Option.bind_some,
          show cInt ((n : Int) * 10 + d.toNat) = none from if_neg (by omega)]
        rfl
      · rw [show cInt ((n : Int) * 10) = none from if_neg (by omega)]
        rfl

theorem scanFlags_eq (hf : cNul ∉ f) (flags : PrintFlags) :
    scanFlags flags (f ++ [cNul]) =
      some ((f.takeWhile isFlag).foldl setFlag flags, f.dropWhile isFlag ++ [cNul]) := by
  induction f generalizing flags with
  | nil => rfl
  | cons c f ih =>
    have hf := (not_or.mp (List.mem_cons.not.mp hf)).2
    rw [List.cons_append, scanFlags]
    by_cases hc : isFlag c = true
    · rw [List.takeWhile_cons_of_pos hc, List.dropWhile_cons_of_pos hc, List.foldl_cons]
      have hstep := ih hf (setFlag flags c)
      simp only [isFlag, Bool.decide_or, Bool.or_eq_true, decide_eq_true_eq] at hc
      rw [← hstep]
      rcases hc with rfl | rfl | rfl | rfl | rfl <;> rfl
    · rw [List.takeWhile_cons_of_neg hc, List.dropWhile_cons_of_neg hc]
      simp only [isFlag, Bool.decide_or, Bool.or_eq_true, decide_eq_true_eq, not_or] at hc
      simp [hc]

/-- `skip_atoi` computes the number without an overflow on its way. -/
def Count.Small : Count → Prop
  | .digits ds => decimal ds + 48 < 2 ^ 31
  | _ => True

instance : DecidablePred Count.Small
  | .digits _ => inferInstanceAs (Decidable (_ < _))
  | .omitted | .star => inferInstanceAs (Decidable True)

/-- The absolute value of the argument for a width is an `int`. -/
def Count.StarFits (args : List VaArg) : Count → Prop
  | .star => ∀ x, vaInt args = some x → x.1 ≠ -2 ^ 31
  | _ => True

theorem vaInt_bounds {x : Int × List VaArg} (h : vaInt args = some x) :
    -2 ^ 31 ≤ x.1 ∧ x.1 < 2 ^ 31 := by
  cases args with
  | nil => simp [vaInt, vaWord] at h
  | cons a args =>
    cases a with
    | str s => simp [vaInt, vaWord] at h
    | word w =>
      obtain rfl : ((w.setWidth 32).toInt, args) = x := by simpa [vaInt, vaWord] using h
      have h1 := BitVec.toInt_lt (x := w.setWidth 32)
      have h2 := BitVec.le_toInt (x := w.setWidth 32)
      exact ⟨by simpa using h2, by simpa using h1⟩

theorem skipAtoi_yields (c : CChar) (f : List CChar) :
    Yields (decimal ((c :: f).takeWhile isDigit) + 48 < 2 ^ 31)
      ((decimal ((c :: f).takeWhile isDigit) : Int), (c :: f).dropWhile isDigit ++ [cNul])
      (skipAtoi 0 (c :: f ++ [cNul])) := by
  obtain ⟨d, g, hg, hd⟩ := dropWhile_nul isDigit_nul (c :: f)
  have hds : ∀ d ∈ (c :: f).takeWhile isDigit, isDigit d = true := fun d hd =>
    List.mem_takeWhile_imp hd
  have hsplit : c :: f ++ [cNul] = (c :: f).takeWhile isDigit ++ d :: g := by
    rw [← hg, ← List.append_assoc, List.takeWhile_append_dropWhile]
  have hnum := skipAtoi_eq hds hd g (n := 0) (by norm_num)
  rw [hsplit, hg]
  exact .of_ite hnum

theorem scanWidth_yields (flags : PrintFlags) {x : Int × List VaArg}
    (hx : (lexCount f).1.value args = some x) :
    Yields ((lexCount f).1.Small ∧ (lexCount f).1.StarFits args)
      ((starWidth (lexCount f).1 flags x.1).1, (starWidth (lexCount f).1 flags x.1).2,
        (lexCount f).2 ++ [cNul], x.2)
      (scanWidth flags args (f ++ [cNul])) := by
  cases f with
  | nil =>
    obtain rfl : (-1, args) = x := by simpa [lexCount, Count.value] using hx
    exact (Yields.pure _).congr (by simp [lexCount, Count.Small, Count.StarFits])
  | cons c f =>
    rw [List.cons_append, scanWidth]
    by_cases hc : isDigit c = true
    · rw [lexCount, if_pos hc] at hx ⊢
      rw [if_pos hc]
      obtain rfl : ((decimal ((c :: f).takeWhile isDigit) : Int), args) = x := by
        simpa [Count.value] using hx
      have hall := (skipAtoi_yields c f).wrap fun x => (x.1, flags, x.2, args)
      exact hall.congr (by simp [Count.Small, Count.StarFits])
    · rw [lexCount, if_neg hc] at hx ⊢
      rw [if_neg hc]
      by_cases hs : c = cChar '*'
      · rw [if_pos hs] at hx ⊢
        rw [if_pos hs]
        obtain ⟨w, rest⟩ := x
        have hx' : vaInt args = some (w, rest) := hx
        have hb : -2 ^ 31 ≤ w ∧ w < 2 ^ 31 := vaInt_bounds hx'
        refine Yields.bind_some hx' ?_
        by_cases hneg : w < 0
        · have hstar : starWidth .star flags w = (-w, { flags with left := true }) :=
            if_pos ⟨rfl, hneg⟩
          have hint : Yields (w ≠ -2 ^ 31) (-w) (cInt (-w)) := by
            rw [cInt]
            exact .of_ite (if_congr (by omega) rfl rfl)
          have hall := hint.wrap fun w => (w, { flags with left := true }, f ++ [cNul], rest)
          simp only [hstar, if_pos hneg]
          exact hall.congr (by simp [Count.Small, Count.StarFits, hx'])
        · have hstar : starWidth .star flags w = (w, flags) := if_neg fun h => hneg h.2
          simp only [hstar, if_neg hneg]
          refine (Yields.pure _).congr ?_
          simp [Count.Small, Count.StarFits, hx']
          omega
      · rw [if_neg hs] at hx ⊢
        rw [if_neg hs]
        obtain rfl : (-1, args) = x := by simpa [Count.value] using hx
        exact (Yields.pure _).congr (by simp [Count.Small, Count.StarFits])

theorem scanPoint_yields {x : Int × List VaArg} (hx : (lexCount f).1.value args = some x) :
    Yields (lexCount f).1.Small (max x.1 0, (lexCount f).2 ++ [cNul], x.2)
      (scanPoint args (f ++ [cNul])) := by
  cases f with
  | nil =>
    obtain rfl : (-1, args) = x := by simpa [lexCount, Count.value] using hx
    exact (Yields.pure _).congr (by simp [lexCount, Count.Small])
  | cons c f =>
    rw [List.cons_append, scanPoint]
    by_cases hc : isDigit c = true
    · rw [lexCount, if_pos hc] at hx ⊢
      rw [if_pos hc]
      obtain rfl : ((decimal ((c :: f).takeWhile isDigit) : Int), args) = x := by
        simpa [Count.value] using hx
      have hall := (skipAtoi_yields c f).wrap fun x => (if x.1 < 0 then 0 else x.1, x.2, args)
      rw [if_neg (by omega)] at hall
      rw [max_eq_left (by omega)]
      exact hall.congr (by simp [Count.Small])
    · rw [lexCount, if_neg hc] at hx ⊢
      rw [if_neg hc]
      by_cases hs : c = cChar '*'
      · rw [if_pos hs] at hx ⊢
        rw [if_pos hs]
        have hx' : vaInt args = some x := hx
        have hmax : (if x.1 < 0 then 0 else x.1) = max x.1 0 := by split <;> omega
        have hall := Yields.bind_some
          (f := fun x : Int × List VaArg => some (if x.1 < 0 then 0 else x.1, f ++ [cNul], x.2))
          hx' (Yields.pure _)
        rw [hmax] at hall
        exact hall.congr (by simp [Count.Small])
      · rw [if_neg hs] at hx ⊢
        rw [if_neg hs]
        obtain rfl : (-1, args) = x := by simpa [Count.value] using hx
        exact (Yields.pure _).congr (by simp [Count.Small])

theorem scanPrecision_yields {x : Int × List VaArg}
    (hx : precisionOf (lexPrecision f).1 args = some x) :
    Yields (∀ k, (lexPrecision f).1 = some k → k.Small) (x.1, (lexPrecision f).2 ++ [cNul], x.2)
      (scanPrecision args (f ++ [cNul])) := by
  cases f with
  | nil =>
    obtain rfl : (-1, args) = x := by simpa [lexPrecision, precisionOf] using hx
    exact (Yields.pure _).congr (by simp [lexPrecision])
  | cons c f =>
    rw [List.cons_append, scanPrecision]
    by_cases hc : c = cChar '.'
    · rw [lexPrecision, if_pos hc] at hx ⊢
      rw [if_pos hc]
      cases hv : (lexCount f).1.value args with
      | none => simp [precisionOf, hv] at hx
      | some y =>
        obtain rfl : (max y.1 0, y.2) = x := by simpa [precisionOf, hv] using hx
        exact (scanPoint_yields hv).congr (by simp)
    · rw [lexPrecision, if_neg hc] at hx ⊢
      rw [if_neg hc]
      obtain rfl : (-1, args) = x := by simpa [precisionOf] using hx
      exact (Yields.pure _).congr (by simp)

theorem scanQualifier_eq (f : List CChar) : scanQualifier (f ++ [cNul]) =
    some ((lexQualifier f).1.getD cNul, (lexQualifier f).2 ++ [cNul]) := by
  cases f with
  | nil => rfl
  | cons c f =>
    rw [List.cons_append, scanQualifier, lexQualifier]
    split <;> rfl

/-! ## One directive -/

theorem numConv_base {flags flags' : PrintFlags} {c : CChar} {base : Nat}
    (h : numConv flags c = some (base, flags')) : 2 ≤ base ∧ base ≤ 16 := by
  unfold numConv at h
  split_ifs at h <;> simp at h <;> omega

theorem printNumber_yields (num : BitVec 64) (qualifier : CChar) (flags : PrintFlags) {base : Nat}
    (hb : 2 ≤ base ∧ base ≤ 16) {width precision : Int} (hw : -1 ≤ width) (hw' : width < 2 ^ 31)
    (hp' : precision < 2 ^ 31) (l : List CChar) :
    Yields (Printed.number (toNumber flags qualifier base num) width precision).Fits
      (l ++ (Printed.number (toNumber flags qualifier base num) width precision).text)
      (printNumber putText l num base qualifier width precision flags) := by
  have h := Yields.of_ite (printNumber_text num qualifier flags hb.1 hb.2 hw hw' hp' l)
  exact h

/-- A string argument is terminated. -/
theorem strArg_eq {s : Option (List CChar)} {t : List CChar} (h : strArg s = some t) :
    cNul ∉ t ∧ ∃ g, s.getD (cChars "(NULL)" ++ [cNul]) = t ++ cNul :: g := by
  cases s with
  | none =>
    obtain rfl : cChars "(NULL)" = t := by simpa [strArg] using h
    exact ⟨by decide, [], rfl⟩
  | some m =>
    by_cases hm : cNul ∈ m
    · obtain rfl : cText m = t := by simpa [strArg, hm] using h
      refine ⟨fun hc => by simpa using List.mem_takeWhile_imp hc, ?_⟩
      have hne : m.dropWhile (· ≠ cNul) ≠ [] := by
        simpa [List.dropWhile_eq_nil_iff] using hm
      obtain ⟨c, g, hg⟩ := List.exists_cons_of_ne_nil hne
      have hc := List.head?_dropWhile_not (· ≠ cNul) m
      rw [hg] at hc
      obtain rfl : c = cNul := by simpa using hc
      refine ⟨g, ?_⟩
      rw [Option.getD_some, ← hg, cText, List.takeWhile_append_dropWhile]
    · simp [strArg, hm] at h

theorem convert_yields {flags : PrintFlags} {width precision : Int} (hw : -1 ≤ width)
    (hw' : width < 2 ^ 31) (hp' : precision < 2 ^ 31) {qualifier c : CChar} (hc : c ≠ cNul)
    (g : List CChar) {p : Printed}
    (h : convPrinted flags width precision qualifier args (some c) = some (p, rest))
    (l : List CChar) :
    Yields p.Fits (l ++ p.text, g, rest)
      (convert putText flags width precision qualifier c g args l) := by
  unfold convPrinted at h
  unfold convert
  simp only at h
  by_cases h1 : c = cChar 'c'
  · rw [if_pos h1] at h ⊢
    cases hv : vaWord args with
    | none => simp [hv] at h
    | some x =>
      obtain ⟨w, args'⟩ := x
      obtain ⟨rfl, rfl⟩ : Printed.char flags width (w.setWidth 8) = p ∧ args' = rest := by
        simpa [hv] using h
      simp only [Option.bind_eq_bind, Option.bind_some]
      rw [convChar_text hw hw']
      exact Yields.pure _
  rw [if_neg h1] at h ⊢
  by_cases h2 : c = cChar 's'
  · rw [if_pos h2] at h ⊢
    cases hv : vaStr args with
    | none => simp [hv] at h
    | some x =>
      obtain ⟨s, args'⟩ := x
      cases hs : strArg s with
      | none => simp [hv, hs] at h
      | some t =>
        obtain ⟨rfl, rfl⟩ : Printed.str flags width precision t = p ∧ args' = rest := by
          simpa [hv, hs] using h
        obtain ⟨ht, g', hg'⟩ := strArg_eq hs
        have hstr := convStr_text flags precision hw hw' s t g' hg' ht l
        simp only [Option.bind_eq_bind, Option.bind_some]
        exact (Yields.of_ite hstr).wrap fun str => (str, g, args')
  rw [if_neg h2] at h ⊢
  by_cases h3 : c = cChar 'p'
  · rw [if_pos h3] at h ⊢
    cases hv : vaWord args with
    | none => simp [hv] at h
    | some x =>
      obtain ⟨w, args'⟩ := x
      simp only [hv, Option.bind_eq_bind, Option.bind_some] at h ⊢
      by_cases hwidth : width = -1
      · simp only [if_pos hwidth, Option.some.injEq, Prod.mk.injEq] at h ⊢
        obtain ⟨rfl, rfl⟩ := h
        have h16 : 2 ≤ 16 ∧ 16 ≤ 16 := by norm_num
        have hwide : (-1 : Int) ≤ 16 ∧ (16 : Int) < 2 ^ 31 := by norm_num
        exact (printNumber_yields w qualifier { flags with zeropad := true } h16 hwide.1 hwide.2
          hp' l).wrap fun str => (str, g, args')
      · simp only [if_neg hwidth, Option.some.injEq, Prod.mk.injEq] at h ⊢
        obtain ⟨rfl, rfl⟩ := h
        have h16 : 2 ≤ 16 ∧ 16 ≤ 16 := by norm_num
        exact (printNumber_yields w qualifier flags h16 hw hw' hp' l).wrap
          fun str => (str, g, args')
  rw [if_neg h3] at h ⊢
  by_cases h4 : c = cChar '%'
  · rw [if_pos h4] at h ⊢
    obtain ⟨rfl, rfl⟩ : Printed.chars [cChar '%'] = p ∧ args = rest := by simpa using h
    exact Yields.pure _
  rw [if_neg h4] at h ⊢
  cases hn : numConv flags c with
  | none =>
    simp only [hn] at h ⊢
    obtain ⟨rfl, rfl⟩ : Printed.chars [cChar '%', c] = p ∧ args = rest := by simpa using h
    simp only [putText_eq, Option.bind_eq_bind, Option.bind_some, if_neg hc]
    have heq : l ++ [cChar '%'] ++ [c] = l ++ (Printed.chars [cChar '%', c]).text := by
      simp [Printed.text]
    rw [heq]
    exact Yields.pure _
  | some x =>
    obtain ⟨base, flags'⟩ := x
    simp only [hn] at h ⊢
    cases hv : vaWord args with
    | none => simp [hv] at h
    | some x =>
      obtain ⟨w, args'⟩ := x
      simp only [hv, Option.bind_eq_bind, Option.bind_some, Option.some.injEq, Prod.mk.injEq] at h ⊢
      obtain ⟨rfl, rfl⟩ := h
      exact (printNumber_yields (numArg qualifier flags' w) qualifier flags' (numConv_base hn) hw
        hw' hp' l).wrap fun str => (str, g, args')

/-- The counts are computed without an overflow and the conversion fits. -/
structure Directive.Fits (d : Directive) (args : List VaArg) : Prop where
  width : d.width.Small ∧ d.width.StarFits args
  precision : ∀ k, d.precision = some k → k.Small
  conv : ∀ x, d.printed args = some x → x.1.Fits

theorem value_bounds {k : Count} {x : Int × List VaArg} (h : k.value args = some x)
    (hk : k.Small) : x.1 < 2 ^ 31 ∧ (k ≠ .star → -1 ≤ x.1) := by
  cases k with
  | omitted =>
    obtain rfl : (-1, args) = x := by simpa [Count.value] using h
    simp
  | digits ds =>
    obtain rfl : ((decimal ds : Int), args) = x := by simpa [Count.value] using h
    have hk : decimal ds + 48 < 2 ^ 31 := hk
    constructor
    · dsimp only; omega
    · intro _; dsimp only; omega
  | star => exact ⟨(vaInt_bounds h).2, fun h => absurd rfl h⟩

theorem starWidth_bounds {k : Count} {x : Int × List VaArg} (h : k.value args = some x)
    (hk : k.Small) (hs : k.StarFits args) (flags : PrintFlags) :
    -1 ≤ (starWidth k flags x.1).1 ∧ (starWidth k flags x.1).1 < 2 ^ 31 := by
  obtain ⟨hlt, hge⟩ := value_bounds h hk
  rw [starWidth]
  by_cases hstar : k = .star
  · subst hstar
    have hne : x.1 ≠ -2 ^ 31 := hs x h
    have hb := (vaInt_bounds h).1
    by_cases hneg : x.1 < 0
    · rw [if_pos ⟨rfl, hneg⟩]
      constructor <;> dsimp only <;> omega
    · rw [if_neg fun h => hneg h.2]
      exact ⟨by omega, hlt⟩
  · rw [if_neg fun h => hstar h.1]
    exact ⟨hge hstar, hlt⟩

theorem precisionOf_bounds {k : Option Count} {x : Int × List VaArg}
    (h : precisionOf k args = some x) (hk : ∀ k', k = some k' → k'.Small) : x.1 < 2 ^ 31 := by
  cases k with
  | none =>
    obtain rfl : (-1, args) = x := by simpa [precisionOf] using h
    norm_num
  | some k =>
    cases hv : k.value args with
    | none => simp [precisionOf, hv] at h
    | some y =>
      obtain rfl : (max y.1 0, y.2) = x := by simpa [precisionOf, hv] using h
      have := (value_bounds hv (hk k rfl)).1
      dsimp only
      omega

theorem not_mem_lexCount (hf : cNul ∉ f) : cNul ∉ (lexCount f).2 := fun h =>
  hf (by rw [← lexCount_text f]; exact List.mem_append_right _ h)

theorem not_mem_lexPrecision (hf : cNul ∉ f) : cNul ∉ (lexPrecision f).2 := fun h =>
  hf (by rw [← lexPrecision_text f]; exact List.mem_append_right _ h)

theorem not_mem_lexQualifier (hf : cNul ∉ f) : cNul ∉ (lexQualifier f).2 := fun h =>
  hf (by rw [← lexQualifier_text f]; exact List.mem_append_right _ h)

/-- The `switch` on what stands behind the qualifier, the terminator included. -/
theorem switch_yields {flags : PrintFlags} {width precision : Int} (hw : -1 ≤ width)
    (hw' : width < 2 ^ 31) (hp' : precision < 2 ^ 31) {qualifier : CChar} (hf : cNul ∉ f)
    {x : Printed × List VaArg}
    (h : convPrinted flags width precision qualifier args f.head? = some x) (l : List CChar) :
    Yields x.1.Fits (l ++ x.1.text, f.tail ++ [cNul], x.2)
      (match f ++ [cNul] with
      | [] => none
      | c :: fmt => convert putText flags width precision qualifier c fmt args l) := by
  cases f with
  | nil =>
    obtain rfl : (Printed.chars [cChar '%'], args) = x := by simpa [convPrinted] using h
    exact Yields.pure _
  | cons c f =>
    have hc : c ≠ cNul := fun e => hf (by simp [e])
    exact convert_yields hw hw' hp' hc (f ++ [cNul]) h l

/-- **A directive prints its text, as long as it fits.** -/
theorem directive_yields (hf : cNul ∉ f) {x : Printed × List VaArg}
    (hx : (lexDirective f).1.printed args = some x) (l : List CChar) :
    Yields ((lexDirective f).1.Fits args) (l ++ x.1.text, (lexDirective f).2 ++ [cNul], x.2)
      (directive putText (f ++ [cNul]) args l) := by
  have hf1 : cNul ∉ f.dropWhile isFlag := fun h => hf ((List.dropWhile_suffix _).mem h)
  have hx' := hx
  simp only [Directive.printed, Directive.params, lexDirective, Option.bind_eq_bind] at hx'
  cases hv : (lexCount (f.dropWhile isFlag)).1.value args with
  | none => simp [hv] at hx'
  | some y =>
    simp only [hv, Option.bind_some] at hx'
    cases hp : precisionOf (lexPrecision (lexCount (f.dropWhile isFlag)).2).1 y.2 with
    | none => simp [hp] at hx'
    | some z =>
      simp only [hp, Option.bind_some] at hx'
      have hwidth := scanWidth_yields ((f.takeWhile isFlag).foldl setFlag {}) hv
      have hprec := scanPrecision_yields hp
      have hrest := not_mem_lexQualifier (not_mem_lexPrecision (not_mem_lexCount hf1))
      rw [directive, scanFlags_eq hf]
      refine (hwidth.bind fun hfits => hprec.bind fun hsmall =>
        Yields.bind_some (q := x.1.Fits) (scanQualifier_eq _) ?_).congr ?_
      · have hb := starWidth_bounds hv hfits.1 hfits.2 ((f.takeWhile isFlag).foldl setFlag {})
        exact switch_yields hb.1 hb.2 (precisionOf_bounds hp hsmall) hrest hx' l
      · constructor
        · rintro ⟨hwidth, hprec, hconv⟩
          refine ⟨hwidth, hprec, fun x' h' => ?_⟩
          obtain rfl : x = x' := Option.some.inj (hx.symm.trans h')
          exact hconv
        · exact fun h => ⟨h.width, h.precision, h.conv x hx⟩

/-! ## A whole format -/

/-- The text of the items, if the arguments match them. -/
def itemsText : List Item → List VaArg → Option (List CChar)
  | [], _ => some []
  | .char c :: items, args => (itemsText items args).map (c :: ·)
  | .directive d :: items, args => do
    let (p, args) ← d.printed args
    let t ← itemsText items args
    some (p.text ++ t)

def ItemsFit : List Item → List VaArg → Prop
  | [], _ => True
  | .char _ :: items, args => ItemsFit items args
  | .directive d :: items, args =>
    d.Fits args ∧ ∀ x, d.printed args = some x → ItemsFit items x.2

/-- **A format prints its text, as long as its directives fit.** -/
theorem formatLoop_yields {rounds : Nat} (hf : cNul ∉ f) (hr : f.length < rounds)
    {t : List CChar} (ht : itemsText (lexFormat f) args = some t) (l : List CChar) :
    Yields (ItemsFit (lexFormat f) args) (l ++ t)
      (formatLoop putText rounds (f ++ [cNul]) args l) := by
  induction rounds generalizing f args t l with
  | zero => omega
  | succ rounds ih =>
    cases f with
    | nil =>
      obtain rfl : [] = t := by simpa [lexFormat, itemsText] using ht
      rw [lexFormat, List.append_nil]
      exact Yields.pure l
    | cons c f =>
      obtain ⟨hc, hf⟩ := not_or.mp (List.mem_cons.not.mp hf)
      rw [List.length_cons] at hr
      rw [List.cons_append, formatLoop, if_neg (Ne.symm hc)]
      rw [lexFormat] at ht ⊢
      by_cases hp : c = cChar '%'
      · rw [if_pos hp] at ht ⊢
        rw [if_neg (not_not.mpr hp)]
        cases hd : (lexDirective f).1.printed args with
        | none => simp [itemsText, hd] at ht
        | some x =>
          cases hrest : itemsText (lexFormat (lexDirective f).2) x.2 with
          | none => simp [itemsText, hd, hrest] at ht
          | some t' =>
            obtain rfl : x.1.text ++ t' = t := by simpa [itemsText, hd, hrest] using ht
            have hf' : cNul ∉ (lexDirective f).2 := fun h =>
              hf (by rw [← lexDirective_text f]; exact List.mem_append_right _ h)
            have hlen := lexDirective_length f
            have hloop := ih hf' (by omega) hrest (l ++ x.1.text)
            rw [List.append_assoc] at hloop
            refine ((directive_yields hf hd l).bind fun _ => hloop).congr ?_
            simp only [ItemsFit, hd, Option.some.injEq, forall_eq']
      · rw [if_neg hp] at ht ⊢
        rw [if_pos hp, putText_eq, Option.bind_eq_bind, Option.bind_some]
        cases hrest : itemsText (lexFormat f) args with
        | none => simp [itemsText, hrest] at ht
        | some t' =>
          obtain rfl : c :: t' = t := by simpa [itemsText, hrest] using ht
          have hloop := ih hf (by omega) hrest (l ++ [c])
          rw [List.append_assoc, List.singleton_append] at hloop
          exact hloop

theorem lexFormat_directive (f : List CChar) : lexFormat (cChar '%' :: f) =
    .directive (lexDirective f).1 :: lexFormat (lexDirective f).2 := by
  rw [lexFormat, if_pos rfl]

theorem lexFormat_one {f : List CChar} {d : Directive} (h : lexDirective f = (d, [])) :
    lexFormat (cChar '%' :: f) = [.directive d] := by
  rw [lexFormat_directive, h, lexFormat]

theorem itemsText_one {d : Directive} {args : List VaArg} {x : Printed × List VaArg}
    (h : d.printed args = some x) : itemsText [.directive d] args = some x.1.text := by
  simp [itemsText, h]

theorem itemsFit_one {d : Directive} {args : List VaArg} :
    ItemsFit [.directive d] args ↔ d.Fits args := by
  simp [ItemsFit]

end MiniEuler
