import Mathlib.Data.List.DropRight
import MiniEuler.Bsp.Hwi
import MiniEuler.Library.Terminal
import MiniEuler.Shell.Dispatch

/-! Line editing: `ShellTask` from a received character to its next pend. A terminal
that reads what the task prints shows the line that the buffer holds. -/

namespace MiniEuler
open Library

def cBackspace : CChar := 8

def cNewline : CChar := 10

def cReturn : CChar := 13

def cDelete : CChar := 0x7F

/-- What `ShellTask` does with a character: `cmdBuf[i]` is written, a text is printed,
or `ShellDispatchCmd` is called with `cmdBuf`. -/
inductive LineEvent
  | store (i : Nat)
  | print (text : List CChar)
  | dispatch (line : List CChar)
  deriving DecidableEq, Repr

structure ShellLine where
  cmdBuf : List CChar
  idx : Nat
  events : List LineEvent

def shellPromptText : List CChar := cChars "\nminiEuler # "

namespace ShellLine

def setIdx (x : ShellLine) (i : Nat) : ShellLine := { x with idx := i }

/-- `cmdBuf[i] = c` -/
def store (x : ShellLine) (i : Nat) (c : CChar) : ShellLine :=
  { x with cmdBuf := x.cmdBuf.set i c, events := x.events ++ [.store i] }

def print (x : ShellLine) (text : List CChar) : ShellLine :=
  { x with events := x.events ++ [.print text] }

def dispatch (x : ShellLine) : ShellLine :=
  { x with events := x.events ++ [.dispatch x.cmdBuf] }

/-- `for (i = 0; i < n; i++) cmdBuf[i] = 0` -/
def clear (x : ShellLine) (n : Nat) : ShellLine :=
  (List.range n).foldl (fun x i => x.store i cNul) x

end ShellLine

/-- The head of the outer loop. -/
def shellPrompt (x : ShellLine) : ShellLine :=
  ((x.print shellPromptText).setIdx 0).clear shellShowMaxLen

/-- The inner loop from the read of `ch` on. -/
def shellChar (x : ShellLine) (ch : CChar) : ShellLine :=
  if ch = cDelete ∨ ch = cBackspace then
    if 0 < x.idx then
      ((x.setIdx (x.idx - 1)).store (x.idx - 1) cNul).print [cBackspace, cSpace, cBackspace]
    else x
  else if ch = cReturn ∨ ch = cNewline then
    shellPrompt ((x.print [cNewline]).store x.idx cNul).dispatch
  else if 0x20 ≤ ch ∧ ch < 0x7F then
    if x.idx < shellShowMaxLen - 1 then
      ((x.store x.idx ch).setIdx (x.idx + 1)).print [ch]
    else x
  else x

/-- The task after the given characters; `cmdBuf` and `idx` are as they are found. -/
def shellTask (cmdBuf : List CChar) (idx : Nat) (chars : List CChar) : ShellLine :=
  chars.foldl shellChar (shellPrompt ⟨cmdBuf, idx, []⟩)

/-! ## The events -/

def LineEvent.text : LineEvent → List CChar
  | .print text => text
  | _ => []

def LineEvent.line : LineEvent → Option (List CChar)
  | .dispatch line => some line
  | _ => none

namespace ShellLine

/-- What was printed after the last prompt. -/
def echoed (x : ShellLine) : List CChar :=
  (x.events.rtakeWhile (· ≠ .print shellPromptText)).flatMap LineEvent.text

/-- What `ShellDispatchCmd` was called with. -/
def dispatched (x : ShellLine) : List (List CChar) := x.events.filterMap LineEvent.line

variable {x : ShellLine} {i n : Nat} {c : CChar} {w : List CChar}

@[simp] theorem echoed_setIdx : (x.setIdx i).echoed = x.echoed := rfl

@[simp] theorem dispatched_setIdx : (x.setIdx i).dispatched = x.dispatched := rfl

theorem echoed_store (i : Nat) (c : CChar) : (x.store i c).echoed = x.echoed := by
  simp [echoed, store, LineEvent.text]

theorem echoed_print (hw : w ≠ shellPromptText) : (x.print w).echoed = x.echoed ++ w := by
  simp [echoed, print, LineEvent.text, hw]

theorem echoed_prompt : (x.print shellPromptText).echoed = [] := by
  simp [echoed, print]

@[simp] theorem dispatched_store : (x.store i c).dispatched = x.dispatched := by
  simp [dispatched, store, LineEvent.line]

@[simp] theorem dispatched_print : (x.print w).dispatched = x.dispatched := by
  simp [dispatched, print, LineEvent.line]

@[simp] theorem dispatched_dispatch : x.dispatch.dispatched = x.dispatched ++ [x.cmdBuf] := by
  simp [dispatched, dispatch, LineEvent.line]

/-! ## The clear loop -/

theorem clear_succ : x.clear (n + 1) = (x.clear n).store n cNul := by
  simp [clear, List.range_succ]

@[simp] theorem clear_idx : (x.clear n).idx = x.idx := by
  induction n with
  | zero => rfl
  | succ n ih => rw [clear_succ]; exact ih

@[simp] theorem clear_dispatched : (x.clear n).dispatched = x.dispatched := by
  induction n with
  | zero => rfl
  | succ n ih => rw [clear_succ, dispatched_store, ih]

@[simp] theorem clear_echoed : (x.clear n).echoed = x.echoed := by
  induction n with
  | zero => rfl
  | succ n ih => rw [clear_succ, echoed_store, ih]

theorem clear_cmdBuf (hn : n ≤ x.cmdBuf.length) :
    (x.clear n).cmdBuf = List.replicate n cNul ++ x.cmdBuf.drop n := by
  induction n with
  | zero => rfl
  | succ n ih =>
    have hdrop : (x.cmdBuf.drop n).set 0 cNul = cNul :: x.cmdBuf.drop (n + 1) := by
      rw [List.drop_eq_getElem_cons (show n < x.cmdBuf.length by omega), List.set_cons_zero]
    calc (x.clear (n + 1)).cmdBuf
        = (x.clear n).cmdBuf.set n cNul := by rw [clear_succ, store]
      _ = (List.replicate n cNul ++ x.cmdBuf.drop n).set n cNul := by rw [ih (by omega)]
      _ = List.replicate n cNul ++ (x.cmdBuf.drop n).set 0 cNul := by
        rw [List.set_append_right _ _ (by simp), List.length_replicate, Nat.sub_self]
      _ = List.replicate (n + 1) cNul ++ x.cmdBuf.drop (n + 1) := by
        rw [hdrop, List.replicate_succ', List.append_assoc, List.singleton_append]

theorem clear_stores (h : .store i ∈ (x.clear n).events) : .store i ∈ x.events ∨ i < n := by
  induction n with
  | zero => exact .inl h
  | succ n ih =>
    rw [clear_succ, store, List.mem_append, List.mem_singleton] at h
    rcases h with h | h
    · exact (ih h).imp id (by omega)
    · exact .inr (by have := LineEvent.store.inj h; omega)

end ShellLine

/-! ## The line -/

def IsEol (ch : CChar) : Prop := ch = cReturn ∨ ch = cNewline

instance (ch : CChar) : Decidable (IsEol ch) := inferInstanceAs (Decidable (_ ∨ _))

/-- What a character does to the line. -/
def editLine (line : List CChar) (ch : CChar) : List CChar :=
  if ch = cDelete ∨ ch = cBackspace then line.dropLast
  else if 0x20 ≤ ch ∧ ch ≤ 0x7E ∧ line.length < shellShowMaxLen - 1 then line ++ [ch]
  else line

/-- The line that the characters since the last line end make. -/
def editedLine (chars : List CChar) : List CChar :=
  (chars.rtakeWhile fun ch => ¬ IsEol ch).foldl editLine []

theorem editedLine_eol {chars : List CChar} {ch : CChar} (h : IsEol ch) :
    editedLine (chars ++ [ch]) = [] := by
  rw [editedLine, List.rtakeWhile_concat_neg _ _ _ (by simpa using h)]
  rfl

theorem editedLine_edit {chars : List CChar} {ch : CChar} (h : ¬ IsEol ch) :
    editedLine (chars ++ [ch]) = editLine (editedLine chars) ch := by
  rw [editedLine, List.rtakeWhile_concat_pos _ _ _ (by simpa using h), List.foldl_append]
  rfl

/-- The buffer and the terminal hold the line. -/
structure LineInv (x : ShellLine) (line : List CChar) : Prop where
  idx : x.idx = line.length
  short : line.length < shellShowMaxLen
  noNul : cNul ∉ line
  buf : x.cmdBuf = line ++ List.replicate (shellShowMaxLen - line.length) cNul
  stores : ∀ i, .store i ∈ x.events → i < shellShowMaxLen
  echo : ∀ (t : Screen CChar) p, t.Shows cSpace p →
    (x.echoed.foldl (Screen.feed cBackspace) t).Shows cSpace (p ++ line)

variable {x : ShellLine} {line : List CChar} {ch : CChar}

theorem shellPrompt_inv (hlen : x.cmdBuf.length = shellShowMaxLen)
    (hst : ∀ i, .store i ∈ x.events → i < shellShowMaxLen) : LineInv (shellPrompt x) [] := by
  refine ⟨ShellLine.clear_idx, by decide, List.not_mem_nil, ?_, fun i hi => ?_,
    fun t p ht => ?_⟩
  · have hbuf : ((x.print shellPromptText).setIdx 0).cmdBuf = x.cmdBuf := rfl
    rw [shellPrompt, ShellLine.clear_cmdBuf (by rw [hbuf, hlen]), hbuf, ← hlen, List.drop_length]
    simp
  · rcases ShellLine.clear_stores hi with h | h
    · exact hst i (by simpa [ShellLine.print, ShellLine.setIdx] using h)
    · exact h
  · have hecho : (shellPrompt x).echoed = [] := by
      rw [shellPrompt, ShellLine.clear_echoed]
      exact ShellLine.echoed_prompt
    simpa [hecho] using ht

/-- DEL or BS on a line that is not empty. -/
theorem shellChar_erase (h : LineInv x (line ++ [ch])) :
    LineInv (((x.setIdx (x.idx - 1)).store (x.idx - 1) cNul).print
      [cBackspace, cSpace, cBackspace]) line := by
  have hidx : x.idx = line.length + 1 := by simpa using h.idx
  have hshort : line.length + 1 < shellShowMaxLen := by simpa using h.short
  refine ⟨by simp [ShellLine.print, ShellLine.store, ShellLine.setIdx, hidx], by omega,
    fun hm => h.noNul (List.mem_append_left _ hm), ?_, fun i hi => ?_, fun t p ht => ?_⟩
  · obtain ⟨n, hn⟩ : ∃ n, shellShowMaxLen - line.length = n + 1 :=
      ⟨shellShowMaxLen - line.length - 1, by omega⟩
    have hbuf := h.buf
    rw [List.length_append, List.length_singleton,
      show shellShowMaxLen - (line.length + 1) = n by omega] at hbuf
    simp [ShellLine.print, ShellLine.store, ShellLine.setIdx, hidx, hbuf, hn, List.replicate_succ]
  · have hi' : .store i ∈ x.events ∨ i = x.idx - 1 := by
      simpa [ShellLine.print, ShellLine.store, ShellLine.setIdx] using hi
    rcases hi' with hi' | rfl
    · exact h.stores i hi'
    · omega
  · rw [ShellLine.echoed_print (by decide), ShellLine.echoed_store, ShellLine.echoed_setIdx,
      List.foldl_append]
    have hshow := h.echo t p ht
    rw [← List.append_assoc] at hshow
    exact hshow.erase (by decide)

/-- A printable character on a line that has room for it. -/
theorem shellChar_append (h : LineInv x line) (hroom : line.length < shellShowMaxLen - 1)
    (hnul : ch ≠ cNul) (hbs : ch ≠ cBackspace) :
    LineInv (((x.store x.idx ch).setIdx (x.idx + 1)).print [ch]) (line ++ [ch]) := by
  have hlen : (line ++ [ch]).length = line.length + 1 := by simp
  refine ⟨by simp [ShellLine.print, ShellLine.setIdx, h.idx], by omega, ?_, ?_,
    fun i hi => ?_, fun t p ht => ?_⟩
  · rw [List.mem_append, List.mem_singleton]
    exact not_or.mpr ⟨h.noNul, Ne.symm hnul⟩
  · obtain ⟨n, hn⟩ : ∃ n, shellShowMaxLen - line.length = n + 1 :=
      ⟨shellShowMaxLen - line.length - 1, by omega⟩
    rw [hlen, show shellShowMaxLen - (line.length + 1) = n by omega]
    simp [ShellLine.print, ShellLine.store, ShellLine.setIdx, h.idx, h.buf, hn, List.replicate_succ]
  · have hi' : .store i ∈ x.events ∨ i = x.idx := by
      simpa [ShellLine.print, ShellLine.store, ShellLine.setIdx] using hi
    rcases hi' with hi' | rfl
    · exact h.stores i hi'
    · rw [h.idx]
      exact h.short
  · have hprompt : [ch] ≠ shellPromptText := fun e => by
      simpa [shellPromptText, cChars] using congrArg List.length e
    rw [ShellLine.echoed_print hprompt, ShellLine.echoed_setIdx, ShellLine.echoed_store,
      List.foldl_append, ← List.append_assoc]
    exact (h.echo t p ht).put hbs

/-- A line end clears the line, any other character edits it. -/
theorem shellChar_inv (h : LineInv x line) (ch : CChar) :
    LineInv (shellChar x ch) (if IsEol ch then [] else editLine line ch) := by
  have heol : IsEol ch → ¬ (ch = cDelete ∨ ch = cBackspace) := by
    rintro (rfl | rfl) <;> decide
  by_cases hdel : ch = cDelete ∨ ch = cBackspace
  · rw [if_neg fun he => heol he hdel, shellChar, if_pos hdel, editLine, if_pos hdel]
    cases line using List.reverseRecOn with
    | nil =>
      rw [if_neg (by simp [h.idx])]
      exact h
    | append_singleton l c =>
      rw [if_pos (by simp [h.idx]), List.dropLast_concat]
      exact shellChar_erase h
  · rw [shellChar, if_neg hdel]
    by_cases he : IsEol ch
    · rw [if_pos he, if_pos (show ch = cReturn ∨ ch = cNewline from he)]
      refine shellPrompt_inv (by simp [ShellLine.dispatch, ShellLine.store, ShellLine.print, h.buf,
        Nat.add_sub_cancel' h.short.le]) fun i hi => ?_
      have hi' : .store i ∈ x.events ∨ i = x.idx := by
        simpa [ShellLine.dispatch, ShellLine.print, ShellLine.store] using hi
      rcases hi' with hi' | rfl
      · exact h.stores i hi'
      · rw [h.idx]
        exact h.short
    · rw [if_neg he, if_neg (show ¬ (ch = cReturn ∨ ch = cNewline) from he), editLine,
        if_neg hdel]
      by_cases hp : 0x20 ≤ ch ∧ ch < 0x7F
      · have hp' : 0x20 ≤ ch ∧ ch ≤ 0x7E := by bv_omega
        rw [if_pos hp]
        by_cases hroom : line.length < shellShowMaxLen - 1
        · rw [if_pos (by rw [h.idx]; exact hroom), if_pos ⟨hp'.1, hp'.2, hroom⟩]
          refine shellChar_append h hroom ?_ fun e => hdel (.inr e)
          rintro rfl
          exact absurd hp.1 (by decide)
        · rw [if_neg (by rw [h.idx]; exact hroom), if_neg fun hh => hroom hh.2.2]
          exact h
      · rw [if_neg hp, if_neg fun hh => hp (by bv_omega)]
        exact h

theorem shellTask_nil (buf : List CChar) (idx : Nat) :
    shellTask buf idx [] = shellPrompt ⟨buf, idx, []⟩ := by
  rw [shellTask, List.foldl_nil]

theorem shellTask_concat (buf : List CChar) (idx : Nat) (chars : List CChar) (ch : CChar) :
    shellTask buf idx (chars ++ [ch]) = shellChar (shellTask buf idx chars) ch := by
  rw [shellTask, shellTask, List.foldl_append, List.foldl_cons, List.foldl_nil]

/-- The state after any characters holds the line that they make. -/
theorem shellTask_inv {buf : List CChar} (hbuf : buf.length = shellShowMaxLen) (idx : Nat)
    (chars : List CChar) : LineInv (shellTask buf idx chars) (editedLine chars) := by
  induction chars using List.reverseRecOn with
  | nil =>
    rw [shellTask_nil]
    exact shellPrompt_inv hbuf fun i hi => absurd hi List.not_mem_nil
  | append_singleton chars ch ih =>
    have hstep := shellChar_inv ih ch
    rw [shellTask_concat]
    by_cases he : IsEol ch
    · rw [if_pos he] at hstep
      rw [editedLine_eol he]
      exact hstep
    · rw [if_neg he] at hstep
      rw [editedLine_edit he]
      exact hstep

theorem shellChar_dispatched (x : ShellLine) (ch : CChar) :
    (shellChar x ch).dispatched =
      x.dispatched ++ (if IsEol ch then [x.cmdBuf.set x.idx cNul] else []) := by
  have heol : IsEol ch → ¬ (ch = cDelete ∨ ch = cBackspace) := by
    rintro (rfl | rfl) <;> decide
  by_cases hdel : ch = cDelete ∨ ch = cBackspace
  · rw [if_neg fun he => heol he hdel, shellChar, if_pos hdel]
    split <;> simp
  · rw [shellChar, if_neg hdel]
    by_cases he : IsEol ch
    · rw [if_pos he, if_pos (show ch = cReturn ∨ ch = cNewline from he), shellPrompt,
        ShellLine.clear_dispatched, ShellLine.dispatched_setIdx, ShellLine.dispatched_print,
        ShellLine.dispatched_dispatch, ShellLine.dispatched_store, ShellLine.dispatched_print]
      rfl
    · rw [if_neg he, if_neg (show ¬ (ch = cReturn ∨ ch = cNewline) from he)]
      split
      · split <;> simp
      · simp

theorem LineInv.length (h : LineInv x line) : x.cmdBuf.length = shellShowMaxLen := by
  rw [h.buf, List.length_append, List.length_replicate]
  exact Nat.add_sub_cancel' h.short.le

theorem LineInv.line_end (h : LineInv x line) :
    x.cmdBuf.set x.idx cNul = x.cmdBuf := by
  obtain ⟨n, hn⟩ : ∃ n, shellShowMaxLen - line.length = n + 1 :=
    ⟨shellShowMaxLen - line.length - 1, by have := h.short; omega⟩
  simp [h.idx, h.buf, hn, List.replicate_succ]

theorem LineInv.buf_cons (h : LineInv x line) :
    ∃ g, x.cmdBuf = line ++ cNul :: g := by
  obtain ⟨n, hn⟩ : ∃ n, shellShowMaxLen - line.length = n + 1 :=
    ⟨shellShowMaxLen - line.length - 1, by have := h.short; omega⟩
  exact ⟨List.replicate n cNul, by rw [h.buf, hn, List.replicate_succ]⟩

/-- **The line that is dispatched is the one that was typed and shown.** -/
theorem line_editing {buf : List CChar} (hbuf : buf.length = shellShowMaxLen) (idx : Nat)
    (chars : List CChar) (ch : CChar) :
    (shellTask buf idx []).dispatched = [] ∧
    (IsEol ch → ∃ line, cNul ∈ line ∧ cText line = editedLine chars ∧
      (shellTask buf idx (chars ++ [ch])).dispatched =
        (shellTask buf idx chars).dispatched ++ [line]) ∧
    (¬ IsEol ch → (shellTask buf idx (chars ++ [ch])).dispatched =
      (shellTask buf idx chars).dispatched) ∧
    (∀ i, .store i ∈ (shellTask buf idx chars).events → i < shellShowMaxLen) ∧
    (shellTask buf idx chars).idx < shellShowMaxLen ∧
    (shellTask buf idx chars).cmdBuf.length = shellShowMaxLen ∧
    (shellTask buf idx chars).cmdBuf =
      (shellTask buf idx chars).cmdBuf.take (shellTask buf idx chars).idx ++
        List.replicate (shellShowMaxLen - (shellTask buf idx chars).idx) cNul ∧
    ∀ (t : Screen CChar) p, t.Shows cSpace p →
      ((shellTask buf idx chars).echoed.foldl (Screen.feed cBackspace) t).Shows cSpace
        (p ++ (shellTask buf idx chars).cmdBuf.take (shellTask buf idx chars).idx) := by
  have h := shellTask_inv hbuf idx chars
  have hd := shellChar_dispatched (shellTask buf idx chars) ch
  have htake : (shellTask buf idx chars).cmdBuf.take (shellTask buf idx chars).idx =
      editedLine chars := by
    rw [h.buf, h.idx]
    exact List.take_left' rfl
  obtain ⟨g, hg⟩ := h.buf_cons
  refine ⟨?_, fun he => ?_, fun he => ?_, h.stores, h.idx ▸ h.short, h.length, ?_,
    ?_⟩
  · rw [shellTask_nil, shellPrompt, ShellLine.clear_dispatched]
    rfl
  · refine ⟨(shellTask buf idx chars).cmdBuf, by simp [hg], by rw [hg, cText_append h.noNul], ?_⟩
    rw [shellTask_concat, hd, if_pos he, h.line_end]
  · rw [shellTask_concat, hd, if_neg he, List.append_nil]
  · rw [htake, h.idx]
    exact h.buf
  · rw [htake]
    exact h.echo

theorem line_editing_delete :
    let buf := List.replicate shellShowMaxLen cNul
    let chars := cChars "px" ++ [cDelete] ++ cChars "s"
    ∃ line, cNul ∈ line ∧ cText line = cChars "ps" ∧
      (shellTask buf 0 (chars ++ [cReturn])).dispatched =
        (shellTask buf 0 chars).dispatched ++ [line] := by
  obtain ⟨-, h, -⟩ := line_editing (List.length_replicate (n := shellShowMaxLen) (a := cNul)) 0
    (cChars "px" ++ [cDelete] ++ cChars "s") cReturn
  obtain ⟨line, hnul, htext, hd⟩ := h (by decide)
  exact ⟨line, hnul, htext.trans (by decide), hd⟩

end MiniEuler
