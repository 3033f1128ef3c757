import MiniEuler.Bsp.CString

/-! `vsnprintf_s` and `print_number`. Every store of a character is guarded by
`str < end` and moves `str` on, so the functions take the store as a parameter: it is
`OutBuf.put` in the code. An `int` that overflows has no result. `RT_PRINTF_PRECISION`
is defined, `RT_PRINTF_SPECIAL` and `RT_KPRINTF_USING_LONGLONG` are not. -/

namespace MiniEuler

def cInt (x : Int) : Option Int := if -2 ^ 31 ≤ x ∧ x < 2 ^ 31 then some x else none

/-- The array that `buf` points to, and `str - buf`. -/
structure OutBuf where
  mem : List CChar
  str : Nat
  deriving DecidableEq, Repr

/-- `if (str < end) *str = c; ++str` -/
def OutBuf.put (size : Nat) (o : OutBuf) (c : CChar) : Option OutBuf :=
  if o.str < size then
    match storeAt o.mem o.str c with
    | none => none
    | some mem => some ⟨mem, o.str + 1⟩
  else some ⟨o.mem, o.str + 1⟩

/-- The bits of `type` and of `flags`. -/
structure PrintFlags where
  zeropad : Bool := false
  sign : Bool := false
  plus : Bool := false
  space : Bool := false
  left : Bool := false
  special : Bool := false
  large : Bool := false
  deriving DecidableEq, Repr

/-- An argument fills a slot of eight bytes; a string is the object that the slot
points to, or NULL. -/
inductive VaArg
  | word (w : BitVec 64)
  | str (s : Option (List CChar))
  deriving DecidableEq, Repr

def vaWord : List VaArg → Option (BitVec 64 × List VaArg)
  | .word w :: args => some (w, args)
  | _ => none

def vaStr : List VaArg → Option (Option (List CChar) × List VaArg)
  | .str s :: args => some (s, args)
  | _ => none

/-- `va_arg(args, int)` -/
def vaInt (args : List VaArg) : Option (Int × List VaArg) := do
  let (w, args) ← vaWord args
  some ((w.setWidth 32).toInt, args)

/-- `_ISDIGIT` -/
def isDigit (c : CChar) : Bool := (c.setWidth 32 - 48#32).ult 10#32

def skipAtoi (i : Int) : List CChar → Option (Int × List CChar)
  | [] => none
  | c :: s =>
    if isDigit c then do
      let m ← cInt (i * 10)
      let m ← cInt (m + c.toNat)
      let i ← cInt (m - 48)
      skipAtoi i s
    else some (i, c :: s)

section
variable {σ : Type} (put : σ → CChar → Option σ)

/-- `while (lo < size--)` with a store of `c`. -/
def padLoop (c : CChar) (lo size : Int) (str : σ) : Option (σ × Int) :=
  if lo < size then do
    let str ← put str c
    padLoop c lo (size - 1) str
  else do
    let size ← cInt (size - 1)
    some (str, size)
termination_by (size - lo).toNat

/-- `while (--size > 0)` with a store of `c`. -/
def padPreLoop (c : CChar) (size : Int) (str : σ) : Option (σ × Int) :=
  if 0 < size - 1 then do
    let str ← put str c
    padPreLoop c (size - 1) str
  else do
    let size ← cInt (size - 1)
    some (str, size)
termination_by size.toNat

def putChars : List CChar → σ → Option σ
  | [], str => some str
  | c :: cs, str => do
    let str ← put str c
    putChars cs str

def smallDigits : List CChar := cChars "0123456789abcdef"

def largeDigits : List CChar := cChars "0123456789ABCDEF"

/-- `while (num != 0) tmp[i++] = digits[divide(&num, base)]`, with room for the
given number of digits in `tmp`. -/
def digitLoop (digits : List CChar) (base : Nat) : Nat → Nat → List CChar → Option (List CChar)
  | 0, num, tmp => if num = 0 then some tmp else none
  | room + 1, num, tmp =>
    if num = 0 then some tmp
    else
      match digits[num % base]? with
      | none => none
      | some d => digitLoop digits base room (num / base) (tmp ++ [d])

/-- `sign` and `num` behind `get sign`. -/
def numSign (num : BitVec 64) (qualifier : CChar) (type : PrintFlags) : CChar × BitVec 64 :=
  if type.sign then
    let (sign, num) :=
      if qualifier = cChar 'h' then
        if (num.setWidth 16).toInt < 0 then (cChar '-', ((-num).setWidth 16).setWidth 64)
        else (cNul, num)
      else if qualifier = cChar 'L' ∨ qualifier = cChar 'l' then
        if num.toInt < 0 then (cChar '-', -num) else (cNul, num)
      else
        if (num.setWidth 32).toInt < 0 then (cChar '-', ((-num).setWidth 32).setWidth 64)
        else (cNul, num)
    if sign ≠ cChar '-' then
      if type.plus then (cChar '+', num) else if type.space then (cSpace, num) else (sign, num)
    else (sign, num)
  else (cNul, num)

/-- `tmp[0..i)`. -/
def numTmp (digits : List CChar) (base : Nat) (num : BitVec 64) : Option (List CChar) :=
  if num = 0 then some [cChar '0'] else digitLoop digits base 32 num.toNat []

/-- `if (!(type & (ZEROPAD | LEFT)))` -/
def numBlanks (type : PrintFlags) (sign : CChar) (size : Int) (buf : σ) : Option (σ × Int) :=
  if type.zeropad || type.left then some (buf, size)
  else padLoop put cSpace 0 (if sign ≠ cNul ∧ 0 < size then size - 1 else size) buf

/-- `if (sign)` -/
def numPutSign (sign : CChar) (size : Int) (buf : σ) : Option (σ × Int) :=
  if sign ≠ cNul then do
    let buf ← put buf sign
    let size ← cInt (size - 1)
    some (buf, size)
  else some (buf, size)

/-- `if (!(type & LEFT))` -/
def numFill (type : PrintFlags) (c : CChar) (size : Int) (buf : σ) : Option (σ × Int) :=
  if type.left then some (buf, size) else padLoop put c 0 size buf

def printNumber (buf : σ) (num : BitVec 64) (base : Nat) (qualifier : CChar)
    (s precision : Int) (type : PrintFlags) : Option σ := do
  let digits := if type.large then largeDigits else smallDigits
  let type := if type.left then { type with zeropad := false } else type
  let c := if type.zeropad then cChar '0' else cSpace
  let (sign, num) := numSign num qualifier type
  let tmp ← numTmp digits base num
  let precision' := if precision < tmp.length then (tmp.length : Int) else precision
  let size ← cInt (s - precision')
  let (buf, size) ← numBlanks put type sign size buf
  let (buf, size) ← numPutSign put sign size buf
  let (buf, size) ← numFill put type c size buf
  let (buf, _) ← padLoop put (cChar '0') tmp.length precision' buf
  let buf ← putChars put (if precision ≠ 0 then tmp.reverse else []) buf
  let (buf, _) ← padLoop put cSpace 0 size buf
  some buf

/-! ## The format -/

/-- The flags, from the character behind the `%` on. -/
def scanFlags (flags : PrintFlags) : List CChar → Option (PrintFlags × List CChar)
  | [] => none
  | c :: fmt =>
    if c = cChar '-' then scanFlags { flags with left := true } fmt
    else if c = cChar '+' then scanFlags { flags with plus := true } fmt
    else if c = cSpace then scanFlags { flags with space := true } fmt
    else if c = cChar '#' then scanFlags { flags with special := true } fmt
    else if c = cChar '0' then scanFlags { flags with zeropad := true } fmt
    else some (flags, c :: fmt)

/-- `field_width`; a negative argument for `*` sets `LEFT`. -/
def scanWidth (flags : PrintFlags) (args : List VaArg) :
    List CChar → Option (Int × PrintFlags × List CChar × List VaArg)
  | [] => none
  | c :: fmt =>
    if isDigit c then do
      let (width, fmt) ← skipAtoi 0 (c :: fmt)
      some (width, flags, fmt, args)
    else if c = cChar '*' then do
      let (width, args) ← vaInt args
      if width < 0 then do
        let width ← cInt (-width)
        some (width, { flags with left := true }, fmt, args)
      else some (width, flags, fmt, args)
    else some (-1, flags, c :: fmt, args)

/-- `precision` behind the period. -/
def scanPoint (args : List VaArg) : List CChar → Option (Int × List CChar × List VaArg)
  | [] => none
  | c :: fmt =>
    if isDigit c then do
      let (precision, fmt) ← skipAtoi 0 (c :: fmt)
      some (if precision < 0 then 0 else precision, fmt, args)
    else if c = cChar '*' then do
      let (precision, args) ← vaInt args
      some (if precision < 0 then 0 else precision, fmt, args)
    else some (0, c :: fmt, args)

def scanPrecision (args : List VaArg) : List CChar → Option (Int × List CChar × List VaArg)
  | [] => none
  | c :: fmt => if c = cChar '.' then scanPoint args fmt else some (-1, c :: fmt, args)

def scanQualifier : List CChar → Option (CChar × List CChar)
  | [] => none
  | c :: fmt =>
    if c = cChar 'h' ∨ c = cChar 'l' then some (c, fmt) else some (cNul, c :: fmt)

/-- The `case 'c'`. -/
def convChar (flags : PrintFlags) (width : Int) (c : CChar) (str : σ) : Option σ := do
  let (str, width) ← (if flags.left then some (str, width) else padPreLoop put cSpace width str)
  let str ← put str c
  let (str, _) ← padPreLoop put cSpace width str
  some str

/-- The loop of `case 's'` that counts `len`. -/
def strLen (width : Int) : List CChar → Int → Option Int
  | [], len => if len = width then some len else none
  | c :: s, len =>
    if len = width ∨ c = cNul then some len
    else do
      let len ← cInt (len + 1)
      strLen width s len

/-- The `case 's'`. -/
def convStr (flags : PrintFlags) (width precision : Int) (s : Option (List CChar)) (str : σ) :
    Option σ := do
  let s := s.getD (cChars "(NULL)" ++ [cNul])
  let len ← strLen width s 0
  let len := if 0 < precision ∧ precision < len then precision else len
  let (str, width) ←
    (if flags.left then some (str, width) else padLoop put cSpace len width str)
  let str ← putChars put (s.take len.toNat) str
  let (str, _) ← padLoop put cSpace len width str
  some str

/-- The `base` and the flags of an integer conversion. -/
def numConv (flags : PrintFlags) (c : CChar) : Option (Nat × PrintFlags) :=
  if c = cChar 'b' then some (2, flags)
  else if c = cChar 'o' then some (8, flags)
  else if c = cChar 'X' then some (16, { flags with large := true })
  else if c = cChar 'x' then some (16, flags)
  else if c = cChar 'd' ∨ c = cChar 'i' then some (10, { flags with sign := true })
  else if c = cChar 'u' then some (10, flags)
  else none

/-- `num` from an argument. -/
def numArg (qualifier : CChar) (flags : PrintFlags) (w : BitVec 64) : BitVec 64 :=
  if qualifier = cChar 'l' then w
  else if qualifier = cChar 'h' then
    if flags.sign then (w.setWidth 16).signExtend 64 else (w.setWidth 16).setWidth 64
  else (w.setWidth 32).setWidth 64

/-- The `switch (*fmt)`, with `fmt` behind the character. In front of the end of the
format `--fmt` undoes the `++fmt` of the loop. -/
def convert (flags : PrintFlags) (width precision : Int) (qualifier c : CChar)
    (fmt : List CChar) (args : List VaArg) (str : σ) :
    Option (σ × List CChar × List VaArg) :=
  if c = cChar 'c' then do
    let (w, args) ← vaWord args
    let str ← convChar put flags width (w.setWidth 8) str
    some (str, fmt, args)
  else if c = cChar 's' then do
    let (s, args) ← vaStr args
    let str ← convStr put flags width precision s str
    some (str, fmt, args)
  else if c = cChar 'p' then do
    let (w, args) ← vaWord args
    let (width, flags) :=
      if width = -1 then (16, { flags with zeropad := true }) else (width, flags)
    let str ← printNumber put str w 16 qualifier width precision flags
    some (str, fmt, args)
  else if c = cChar '%' then do
    let str ← put str (cChar '%')
    some (str, fmt, args)
  else
    match numConv flags c with
    | some (base, flags) => do
      let (w, args) ← vaWord args
      let str ← printNumber put str (numArg qualifier flags w) base qualifier width precision flags
      some (str, fmt, args)
    | none => do
      let str ← put str (cChar '%')
      if c = cNul then some (str, c :: fmt, args)
      else do
        let str ← put str c
        some (str, fmt, args)

/-- One directive, with `fmt` behind its `%`. -/
def directive (fmt : List CChar) (args : List VaArg) (str : σ) :
    Option (σ × List CChar × List VaArg) := do
  let (flags, fmt) ← scanFlags {} fmt
  let (width, flags, fmt, args) ← scanWidth flags args fmt
  let (precision, fmt, args) ← scanPrecision args fmt
  let (qualifier, fmt) ← scanQualifier fmt
  match fmt with
  | [] => none
  | c :: fmt => convert put flags width precision qualifier c fmt args str

/-- `for (; *fmt; ++fmt)`, for as many rounds as the format can take. -/
def formatLoop : Nat → List CChar → List VaArg → σ → Option σ
  | 0, _, _, _ => none
  | _ + 1, [], _, _ => none
  | rounds + 1, c :: fmt, args, str =>
    if c = cNul then some str
    else if c ≠ cChar '%' then do
      let str ← put str c
      formatLoop rounds fmt args str
    else do
      let (str, fmt, args) ← directive put fmt args str
      formatLoop rounds fmt args str

end

/-- The array behind the call and the value that is returned; `size` is not negative. -/
def vsnprintfS (buf : List CChar) (size : Nat) (fmt : List CChar) (args : List VaArg) :
    Option (List CChar × Int) := do
  let o ← formatLoop (OutBuf.put size) fmt.length fmt args ⟨buf, 0⟩
  let mem ←
    if 0 < size then storeAt o.mem (if o.str < size then o.str else size - 1) cNul
    else some o.mem
  some (mem, (BitVec.ofNat 32 o.str).toInt)

end MiniEuler
