import MiniEuler.Bsp.PrintfFormat

/-! The bounded buffer of `vsnprintf_s`: it holds the beginning of the text that the
same run gives to a sink without bounds. -/

namespace MiniEuler
open Library

/-! ## Two sinks in step -/

section
variable {σ τ : Type} {R : σ → τ → Prop} {put : σ → CChar → Option σ}
  {put' : τ → CChar → Option τ} (hput : Follows R put put') {s : σ} {t : τ} (h : R s t)
include hput h

theorem padLoop_rel (c : CChar) (lo size : Int) :
    Option.Rel (Beside R) (padLoop put c lo size s) (padLoop put' c lo size t) := by
  induction hn : (size - lo).toNat generalizing size s t with
  | zero =>
    rw [padLoop, padLoop, if_neg (by omega), if_neg (by omega)]
    exact rel_bind_same _ fun _ _ => .some ⟨h, rfl⟩
  | succ n ih =>
    rw [padLoop, padLoop, if_pos (by omega), if_pos (by omega)]
    exact rel_bind (hput s t c h) fun _ _ h => ih h (size - 1) (by omega)

theorem padPreLoop_rel (c : CChar) (size : Int) :
    Option.Rel (Beside R) (padPreLoop put c size s) (padPreLoop put' c size t) := by
  induction hn : (size - 1).toNat generalizing size s t with
  | zero =>
    rw [padPreLoop, padPreLoop, if_neg (by omega), if_neg (by omega)]
    exact rel_bind_same _ fun _ _ => .some ⟨h, rfl⟩
  | succ n ih =>
    rw [padPreLoop, padPreLoop, if_pos (by omega), if_pos (by omega)]
    exact rel_bind (hput s t c h) fun _ _ h => ih h (size - 1) (by omega)

theorem putChars_rel (cs : List CChar) :
    Option.Rel R (putChars put cs s) (putChars put' cs t) := by
  induction cs generalizing s t with
  | nil => exact .some h
  | cons c cs ih => exact rel_bind (hput s t c h) fun _ _ h => ih h

theorem printNumber_rel (num : BitVec 64) (base : Nat) (qualifier : CChar)
    (width precision : Int) (type : PrintFlags) :
    Option.Rel R (printNumber put s num base qualifier width precision type)
      (printNumber put' t num base qualifier width precision type) := by
  unfold printNumber
  refine rel_bind_same _ fun tmp _ => rel_bind_same _ fun size _ => ?_
  have hblanks (type : PrintFlags) (sign : CChar) (size : Int) :
      Option.Rel (Beside R) (numBlanks put type sign size s) (numBlanks put' type sign size t) :=
    rel_ite (fun _ => .some ⟨h, rfl⟩) fun _ => padLoop_rel hput h ..
  refine rel_bind (hblanks ..) ?_
  rintro ⟨s, size⟩ ⟨t, _⟩ ⟨h, rfl⟩
  have hsign (sign : CChar) :
      Option.Rel (Beside R) (numPutSign put sign size s) (numPutSign put' sign size t) :=
    rel_ite (fun _ => rel_bind (hput s t sign h) fun _ _ h =>
      rel_bind_same _ fun _ _ => .some ⟨h, rfl⟩) fun _ => .some ⟨h, rfl⟩
  refine rel_bind (hsign _) ?_
  rintro ⟨s, size⟩ ⟨t, _⟩ ⟨h, rfl⟩
  have hfill (type : PrintFlags) (c : CChar) :
      Option.Rel (Beside R) (numFill put type c size s) (numFill put' type c size t) :=
    rel_ite (fun _ => .some ⟨h, rfl⟩) fun _ => padLoop_rel hput h ..
  refine rel_bind (hfill ..) ?_
  rintro ⟨s, size⟩ ⟨t, _⟩ ⟨h, rfl⟩
  refine rel_bind (padLoop_rel hput h ..) fun x y hxy => ?_
  refine rel_bind (putChars_rel hput hxy.1 _) fun x y hxy => ?_
  exact rel_bind (padLoop_rel hput hxy ..) fun x y hxy => .some hxy.1

theorem convChar_rel (flags : PrintFlags) (width : Int) (c : CChar) :
    Option.Rel R (convChar put flags width c s) (convChar put' flags width c t) := by
  have hpad : Option.Rel (Beside R)
      (if flags.left then some (s, width) else padPreLoop put cSpace width s)
      (if flags.left then some (t, width) else padPreLoop put' cSpace width t) :=
    rel_ite (fun _ => .some ⟨h, rfl⟩) fun _ => padPreLoop_rel hput h ..
  refine rel_bind hpad ?_
  rintro ⟨s, width⟩ ⟨t, _⟩ ⟨h, rfl⟩
  refine rel_bind (hput s t c h) fun _ _ h => ?_
  exact rel_bind (padPreLoop_rel hput h ..) fun x y hxy => .some hxy.1

theorem convStr_rel (flags : PrintFlags) (width precision : Int) (m : Option (List CChar)) :
    Option.Rel R (convStr put flags width precision m s)
      (convStr put' flags width precision m t) := by
  refine rel_bind_same _ fun len _ => ?_
  have hpad (len : Int) : Option.Rel (Beside R)
      (if flags.left then some (s, width) else padLoop put cSpace len width s)
      (if flags.left then some (t, width) else padLoop put' cSpace len width t) :=
    rel_ite (fun _ => .some ⟨h, rfl⟩) fun _ => padLoop_rel hput h ..
  refine rel_bind (hpad _) ?_
  rintro ⟨s, width⟩ ⟨t, _⟩ ⟨h, rfl⟩
  refine rel_bind (putChars_rel hput h _) fun _ _ h => ?_
  exact rel_bind (padLoop_rel hput h ..) fun x y hxy => .some hxy.1

theorem convert_rel (flags : PrintFlags) (width precision : Int) (qualifier c : CChar)
    (fmt : List CChar) (args : List VaArg) :
    Option.Rel (Beside R) (convert put flags width precision qualifier c fmt args s)
      (convert put' flags width precision qualifier c fmt args t) := by
  refine rel_ite (fun _ => ?_) fun _ => rel_ite (fun _ => ?_) fun _ => rel_ite (fun _ => ?_)
    fun _ => rel_ite (fun _ => ?_) fun _ => ?_
  · exact rel_bind_same _ fun x _ => rel_bind (convChar_rel hput h ..) fun _ _ h => .some ⟨h, rfl⟩
  · exact rel_bind_same _ fun x _ => rel_bind (convStr_rel hput h ..) fun _ _ h => .some ⟨h, rfl⟩
  · exact rel_bind_same _ fun x _ =>
      rel_bind (printNumber_rel hput h ..) fun _ _ h => .some ⟨h, rfl⟩
  · exact rel_bind (hput s t _ h) fun _ _ h => .some ⟨h, rfl⟩
  · cases numConv flags c with
    | some x =>
      exact rel_bind_same _ fun x _ =>
        rel_bind (printNumber_rel hput h ..) fun _ _ h => .some ⟨h, rfl⟩
    | none =>
      refine rel_bind (hput s t _ h) fun _ _ h => rel_ite (fun _ => .some ⟨h, rfl⟩) fun _ => ?_
      exact rel_bind (hput _ _ _ h) fun _ _ h => .some ⟨h, rfl⟩

theorem directive_rel (fmt : List CChar) (args : List VaArg) :
    Option.Rel (Beside R) (directive put fmt args s) (directive put' fmt args t) := by
  refine rel_bind_same _ fun _ _ => rel_bind_same _ fun _ _ => rel_bind_same _ fun _ _ =>
    rel_bind_same _ fun x _ => ?_
  obtain ⟨qualifier, fmt⟩ := x
  cases fmt with
  | nil => exact .none
  | cons c fmt => exact convert_rel hput h ..

/-- **Two sinks that agree on a character agree on a format.** -/
theorem formatLoop_rel (rounds : Nat) (fmt : List CChar) (args : List VaArg) :
    Option.Rel R (formatLoop put rounds fmt args s) (formatLoop put' rounds fmt args t) := by
  induction rounds generalizing fmt args s t with
  | zero => exact .none
  | succ rounds ih =>
    cases fmt with
    | nil => exact .none
    | cons c fmt =>
      refine rel_ite (fun _ => .some h) fun _ => rel_ite (fun _ => ?_) fun _ => ?_
      · exact rel_bind (hput s t c h) fun _ _ h => ih h ..
      · refine rel_bind (directive_rel hput h ..) ?_
        rintro ⟨s, x⟩ ⟨t, _⟩ ⟨h, rfl⟩
        exact ih h ..

end

/-! ## The buffer -/

/-- The buffer holds the beginning of the text. -/
structure OutBuf.Holds (init : List CChar) (o : OutBuf) (l : List CChar) : Prop where
  str : o.str = l.length
  mem : o.mem = l.take init.length ++ init.drop l.length

variable {init l : List CChar} {o : OutBuf}

theorem OutBuf.Holds.length (h : o.Holds init l) : o.mem.length = init.length := by
  rw [h.mem, List.length_append, List.length_take, List.length_drop]
  omega

/-- Behind the text, the buffer is what it was. -/
theorem OutBuf.Holds.set (h : o.Holds init l) {i : Nat} (hi : i ≤ l.length)
    (hi' : i < init.length) (c : CChar) :
    o.mem.set i c = l.take i ++ c :: (l.take init.length ++ init.drop l.length).drop (i + 1) := by
  have hlen : i < o.mem.length := by rw [h.length]; exact hi'
  have htake : o.mem.take i = l.take i := by
    rw [h.mem, List.take_append_of_le_length (by simp; omega), List.take_take,
      min_eq_left hi'.le]
  rw [List.set_eq_take_append_cons_drop, if_pos hlen, htake, h.mem]

theorem OutBuf.put_follows (init : List CChar) :
    Follows (OutBuf.Holds init) (OutBuf.put init.length) putText := by
  intro o l c h
  rw [putText_eq, OutBuf.put]
  by_cases hlt : o.str < init.length
  · rw [if_pos hlt, storeAt, if_pos (by rw [h.length]; exact hlt)]
    rw [h.str] at hlt
    refine .some ⟨by simp [h.str], ?_⟩
    rw [h.str, h.set le_rfl hlt, List.take_of_length_le (le_refl l.length),
      List.take_of_length_le (show l.length ≤ init.length by omega),
      List.take_of_length_le (show (l ++ [c]).length ≤ init.length by simp; omega)]
    simp [List.drop_append, List.drop_drop]
  · rw [if_neg hlt]
    rw [h.str] at hlt
    refine .some ⟨by simp [h.str], ?_⟩
    rw [h.mem, List.take_append_of_le_length (by omega), List.drop_of_length_le (by omega),
      List.drop_of_length_le (by simp; omega)]

/-- The text cut to the buffer, with its terminator, and what the buffer had behind. -/
def cutText (buf out : List CChar) : List CChar :=
  out.take (buf.length - 1) ++ cNul :: buf.drop (min (buf.length - 1) out.length + 1)

theorem OutBuf.Holds.terminate (h : o.Holds init l) (hne : init ≠ []) :
    storeAt o.mem (if o.str < init.length then o.str else init.length - 1) cNul =
      some (cutText init l) := by
  have hpos : 0 < init.length := List.length_pos_iff.mpr hne
  rw [h.str, storeAt, if_pos (by rw [h.length]; split <;> omega), Option.some.injEq, cutText]
  by_cases hlt : l.length < init.length
  · rw [if_pos hlt, h.set le_rfl hlt, min_eq_right (by omega),
      List.take_of_length_le (le_refl l.length), List.take_of_length_le (by omega),
      List.take_of_length_le (show l.length ≤ init.length - 1 by omega)]
    simp [List.drop_append, List.drop_drop]
  · rw [if_neg hlt, h.set (by omega) (by omega), min_eq_left (by omega)]
    have hdrop : (l.take init.length ++ init.drop l.length).drop (init.length - 1 + 1) =
        init.drop (init.length - 1 + 1) := by
      rw [Nat.sub_add_cancel hpos, List.drop_of_length_le (by omega : init.length ≤ l.length),
        List.append_nil, List.drop_of_length_le (by simp), List.drop_of_length_le le_rfl]
    rw [hdrop]

theorem toInt_length {out : List CChar} (hlen : out.length < 2 ^ 31) :
    (BitVec.ofNat 32 out.length).toInt = out.length := by
  rw [BitVec.toInt_eq_toNat_of_lt (by simp; omega), BitVec.toNat_ofNat,
    Nat.mod_eq_of_lt (by omega)]

/-- A format whose directives fit, written to a buffer. -/
theorem vsnprintfS_eq {fmt : List CChar} (hfmt : cNul ∉ fmt) {args : List VaArg}
    {out : List CChar} (hout : itemsText (lexFormat fmt) args = some out) {buf : List CChar}
    (hbuf : buf ≠ []) :
    Yields (ItemsFit (lexFormat fmt) args)
      (cutText buf out, (BitVec.ofNat 32 out.length).toInt)
      (vsnprintfS buf buf.length (fmt ++ [cNul]) args) := by
  have hstart : OutBuf.Holds buf ⟨buf, 0⟩ [] := ⟨rfl, by simp⟩
  have hrel := formatLoop_rel (OutBuf.put_follows buf) hstart (fmt ++ [cNul]).length
    (fmt ++ [cNul]) args
  have hrounds : fmt.length < (fmt ++ [cNul]).length := by simp
  have htext := formatLoop_yields hfmt hrounds hout []
  rw [List.nil_append] at htext
  constructor
  · intro hfit
    rw [htext.1 hfit] at hrel
    cases hloop : formatLoop (OutBuf.put buf.length) (fmt ++ [cNul]).length (fmt ++ [cNul]) args
        ⟨buf, 0⟩ with
    | none => rw [hloop] at hrel; nomatch hrel
    | some o =>
      rw [hloop] at hrel
      obtain hheld : o.Holds buf out := by cases hrel; assumption
      rw [vsnprintfS, hloop]
      simp only [Option.bind_eq_bind, Option.bind_some, if_pos (List.length_pos_iff.mpr hbuf)]
      rw [hheld.terminate hbuf, Option.bind_some, hheld.str]
  · intro hfit
    rw [htext.2 hfit] at hrel
    cases hloop : formatLoop (OutBuf.put buf.length) (fmt ++ [cNul]).length (fmt ++ [cNul]) args
        ⟨buf, 0⟩ with
    | none => rw [vsnprintfS, hloop]; rfl
    | some o => rw [hloop] at hrel; nomatch hrel

/-- **`vsnprintf_s` writes the text cut to the buffer and returns its length, as long as
the directives fit.** -/
theorem bounded_formatting_iff {fmt : List CChar} (hfmt : cNul ∉ fmt) {args : List VaArg}
    {out : List CChar} (hout : itemsText (lexFormat fmt) args = some out)
    (hlen : out.length < 2 ^ 31) :
    (∀ buf : List CChar, buf ≠ [] →
      vsnprintfS buf buf.length (fmt ++ [cNul]) args = some (cutText buf out, (out.length : Int))) ↔
    ItemsFit (lexFormat fmt) args := by
  have hret : (BitVec.ofNat 32 out.length).toInt = out.length := toInt_length hlen
  constructor
  · intro h
    by_contra hfit
    have hbuf : [cNul] ≠ [] := by simp
    have hnone := (vsnprintfS_eq hfmt hout hbuf).2 hfit
    rw [h [cNul] hbuf] at hnone
    nomatch hnone
  · intro hfit buf hbuf
    rw [(vsnprintfS_eq hfmt hout hbuf).1 hfit, hret]

theorem bounded_formatting_width : vsnprintfS (cChars "1234") 4 (cChars "%5d" ++ [cNul])
    [.word 42] = some (cChars "   " ++ [cNul], 5) := by
  let d : Directive := ⟨[], .digits (cChars "5"), none, none, some (cChar 'd')⟩
  let p : Printed := .number (toNumber { sign := true } cNul 10 42) 5 (-1)
  have hitems : lexFormat (cChars "%5d") = [.directive d] :=
    lexFormat_one (show lexDirective (cChars "5d") = (d, []) by decide)
  have hprinted : d.printed [.word 42] = some (p, []) := by decide
  have hfit : d.Fits [.word 42] := by
    refine ⟨⟨by decide, trivial⟩, by simp [d], fun x hx => ?_⟩
    obtain rfl : (p, []) = x := Option.some.inj (hprinted.symm.trans hx)
    exact ⟨by decide, by decide⟩
  have hfmt : cNul ∉ cChars "%5d" := by decide
  have h := (bounded_formatting_iff hfmt
    (hitems ▸ itemsText_one hprinted) (by decide)).mpr (hitems ▸ itemsFit_one.mpr hfit)
    (cChars "1234") (by decide)
  exact h.trans (by decide)

/-- The width is an `int` and so is the length of the text, but `i * 10 + '0'` is not. -/
theorem width_overflows : ∃ out, itemsText (lexFormat (cChars "%2147483600c")) [.word 120] =
    some out ∧ out.length = 2147483600 ∧ out.length < 2 ^ 31 ∧
    vsnprintfS [cNul] 1 (cChars "%2147483600c" ++ [cNul]) [.word 120] = none := by
  let d : Directive := ⟨[], .digits (cChars "2147483600"), none, none, some (cChar 'c')⟩
  have hitems : lexFormat (cChars "%2147483600c") = [.directive d] :=
    lexFormat_one (show lexDirective (cChars "2147483600c") = (d, []) by decide)
  have hvalue : d.width.value [.word 120] = some (2147483600, [.word 120]) := by decide
  have hprinted : d.printed [.word 120] = some (.char {} 2147483600 120, []) := by
    rw [Directive.printed, Directive.params, hvalue]
    decide
  have htext := itemsText_one hprinted
  rw [← hitems] at htext
  have hfit : ¬ ItemsFit (lexFormat (cChars "%2147483600c")) [.word 120] := by
    rw [hitems, itemsFit_one]
    exact fun h => absurd h.width.1 (by decide)
  have hlen : (Printed.char {} 2147483600 120).text.length = 2147483600 :=
    charText_length {} 2147483600 120
  refine ⟨_, htext, hlen, by rw [hlen]; norm_num, ?_⟩
  have hbuf : [cNul] ≠ [] := by simp
  exact (vsnprintfS_eq (by decide) htext hbuf).2 hfit

/-! ## Printing -/

/-- What `TryPutc` sends. -/
def tryPutc (ch : CChar) : List CChar :=
  if ch = cChar '\n' then [ch, cChar '\r'] else [ch]

def osMaxShowLen : Nat := 0x200

/-- What `TryPrintf` sends to the serial port. -/
def tryPrintf (format : List CChar) (vaList : List VaArg) : Option (List CChar) := do
  let (buff, len) ← vsnprintfS (List.replicate osMaxShowLen cNul) osMaxShowLen format vaList
  if len = -1 then some [] else some ((cText buff).flatMap tryPutc)

/-- **A line of output is the beginning of the text.** -/
theorem tryPrintf_eq {fmt : List CChar} (hfmt : cNul ∉ fmt) {args : List VaArg}
    {out : List CChar} (hout : itemsText (lexFormat fmt) args = some out) (hnul : cNul ∉ out)
    (hlen : out.length < 2 ^ 31) (hfit : ItemsFit (lexFormat fmt) args) :
    tryPrintf (fmt ++ [cNul]) args =
      some ((out.take (osMaxShowLen - 1)).flatMap tryPutc) := by
  have hret : (BitVec.ofNat 32 out.length).toInt = out.length := toInt_length hlen
  have hne : List.replicate osMaxShowLen cNul ≠ [] := by
    rw [← List.length_pos_iff, List.length_replicate]
    decide
  have hcall := (vsnprintfS_eq hfmt hout hne).1 hfit
  rw [List.length_replicate, hret] at hcall
  have hneg : ¬ (out.length : Int) = -1 := by omega
  have htext : cText (cutText (List.replicate osMaxShowLen cNul) out) =
      out.take (osMaxShowLen - 1) := by
    rw [cutText, List.length_replicate]
    exact cText_append (fun h => hnul (List.mem_of_mem_take h)) _
  rw [tryPrintf, hcall]
  simp only [Option.bind_eq_bind, Option.bind_some, if_neg hneg, htext]

end MiniEuler
