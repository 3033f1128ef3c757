import Mathlib.Data.List.Find
import MiniEuler.Bsp.ConsoleInput
import MiniEuler.Shell.Line

/-! From the keys to the commands: what `ShellTask` makes of the characters that it fetches in a
run of the console, against what the UART has received. -/

namespace MiniEuler
open Library

/-! ## The lines that are typed -/

/-- The line after the characters, which find the given one. -/
def typedLine (line chars : List CChar) : List CChar :=
  chars.foldl (fun line ch => if IsEol ch then [] else editLine line ch) line

/-- The lines that the characters end. -/
def typedLines (line : List CChar) : List CChar → List (List CChar)
  | [] => []
  | ch :: chars =>
    if IsEol ch then line :: typedLines [] chars else typedLines (editLine line ch) chars

/-- What a line asks for, with the text of the argument. -/
def lineEvents (line : List CChar) : List ShellEvent :=
  if line = [] then []
  else
    match gShellCmds.find? fun e => firstToken line = e.name with
    | some e => [.call e.handler (tokenArgs line)]
    | none =>
      [.print (cChars "Unknown command: " ++ (firstToken line).take 15 ++ cChars "\n"),
        .print (cChars "Type 'help' to see available commands.\n")]

theorem editedLine_eq (chars : List CChar) : editedLine chars = typedLine [] chars := by
  induction chars using List.reverseRecOn with
  | nil => rfl
  | append_singleton chars ch ih =>
    rw [typedLine, List.foldl_append, List.foldl_cons, List.foldl_nil]
    by_cases he : IsEol ch
    · rw [editedLine_eol he, if_pos he]
    · rw [editedLine_edit he, if_neg he, ih, typedLine]

theorem typedLines_concat (line chars : List CChar) (ch : CChar) :
    typedLines line (chars ++ [ch]) =
      typedLines line chars ++ if IsEol ch then [typedLine line chars] else [] := by
  induction chars generalizing line with
  | nil => by_cases he : IsEol ch <;> simp [typedLines, typedLine, he]
  | cons c chars ih =>
    rw [List.cons_append, typedLines, typedLines, typedLine, List.foldl_cons]
    by_cases he : IsEol c
    · rw [if_pos he, if_pos he, if_pos he, ih, List.cons_append]
      rfl
    · rw [if_neg he, if_neg he, if_neg he, ih]
      rfl

/-! ## The calls of `ShellDispatchCmd` -/

/-- The event with the text that its argument points to. -/
def ShellEvent.withText : ShellEvent → ShellEvent
  | .call handler args => .call handler (cText args)
  | .print text => .print text

/-- The buffer holds the line, with its NUL. -/
def HoldsLine (cmdBuf line : List CChar) : Prop :=
  cNul ∉ line ∧ ∃ g, cmdBuf = line ++ cNul :: g

/-- `ShellDispatchCmd` on each line, the `i`-th time with `cmds i` in its local array. -/
def dispatchLines (cmds : Nat → List CChar) : Nat → List (List CChar) → Option (List ShellEvent)
  | _, [] => some []
  | i, line :: lines =>
    match shellDispatchCmd (some line) (cmds i), dispatchLines cmds (i + 1) lines with
    | some events, some rest => some (events ++ rest)
    | _, _ => none

/-- What `ShellTask` has done with the characters that it has fetched. -/
def sessionEvents (cmdBuf : List CChar) (idx : Nat) (cmds : Nat → List CChar)
    (hist : ConsoleHistory) : Option (List ShellEvent) :=
  dispatchLines cmds 0 (shellTask cmdBuf idx (fetched hist)).dispatched

theorem find_cutToken (line : List CChar) :
    (gShellCmds.find? fun e => cutToken line = e.name) =
      gShellCmds.find? fun e => firstToken line = e.name := by
  refine List.find?_congr fun e he => ?_
  rw [decide_eq_decide]
  exact cutToken_eq_name he

theorem shellDispatchCmd_line {cmdBuf line : List CChar} (h : HoldsLine cmdBuf line)
    {cmd : List CChar} (hcmd : cmd.length = 16) : ∃ events,
    shellDispatchCmd (some cmdBuf) cmd = some events ∧
      events.map ShellEvent.withText = lineEvents line := by
  obtain ⟨hnul, g, rfl⟩ := h
  by_cases hne : line = []
  · subst hne
    exact ⟨[], rfl, rfl⟩
  · refine ⟨_, shellDispatchCmd_eq hnul hne g hcmd, ?_⟩
    rw [lineEvents, if_neg hne, find_cutToken]
    cases gShellCmds.find? fun e => firstToken line = e.name with
    | none => rfl
    | some e =>
      have hargs : cNul ∉ tokenArgs line := fun hm =>
        hnul ((List.dropWhile_subset _) ((List.dropWhile_subset _) hm))
      simp only [List.map_cons, List.map_nil, ShellEvent.withText, cText_append hargs]

/-- The lines are dispatched one after the other. -/
theorem dispatchLines_eq {cmds : Nat → List CChar} (hcmds : ∀ i, (cmds i).length = 16)
    {bufs lines : List (List CChar)} (h : List.Forall₂ HoldsLine bufs lines) (i : Nat) :
    ∃ events, dispatchLines cmds i bufs = some events ∧
      events.map ShellEvent.withText = lines.flatMap lineEvents := by
  induction h generalizing i with
  | nil => exact ⟨[], rfl, rfl⟩
  | cons hline _ ih =>
    obtain ⟨events, hevents, htext⟩ := shellDispatchCmd_line hline (hcmds i)
    obtain ⟨rest, hrest, hresttext⟩ := ih (i + 1)
    refine ⟨events ++ rest, by rw [dispatchLines, hevents, hrest], ?_⟩
    rw [List.map_append, htext, hresttext, List.flatMap_cons]

/-- The buffers that `ShellTask` dispatches hold the lines that are typed. -/
theorem shellTask_lines {cmdBuf : List CChar} (hbuf : cmdBuf.length = shellShowMaxLen) (idx : Nat)
    (chars : List CChar) :
    List.Forall₂ HoldsLine (shellTask cmdBuf idx chars).dispatched (typedLines [] chars) := by
  induction chars using List.reverseRecOn with
  | nil =>
    rw [shellTask_nil, shellPrompt, ShellLine.clear_dispatched]
    exact .nil
  | append_singleton chars ch ih =>
    have h := shellTask_inv hbuf idx chars
    rw [shellTask_concat, shellChar_dispatched, typedLines_concat]
    refine List.rel_append ih ?_
    by_cases he : IsEol ch
    · rw [if_pos he, if_pos he, h.line_end, ← editedLine_eq]
      exact .cons ⟨h.noNul, h.buf_cons⟩ .nil
    · rw [if_neg he, if_neg he]
      exact .nil

/-! ## The run -/

variable {hist : ConsoleHistory} {x : Console}

theorem inOrder_of_kept (r : Run consoleMachine hist x)
    (hkept : Always (fun pre e => e.2 = .read → SlotKept pre) hist) : InOrder hist := by
  induction r with
  | start h =>
    intro k c hk
    simp [fetched] at hk
  | @step hist x a r ha ih =>
    obtain ⟨hpre, hread⟩ := (always_snoc _ _ _).mp hkept
    have J := ConsoleInv.of_run r
    cases a with
    | read => exact (inOrder_read J ha).mpr ⟨ih hpre, hread rfl⟩
    | enableInt | semCreate | pend | sys => exact (inOrder_other J rfl).mpr (ih hpre)

/-- What has been fetched is the beginning of what has been received. -/
theorem ConsoleInv.fetched_eq (J : ConsoleInv hist x) (h : InOrder hist) :
    fetched hist = (received hist).take (fetched hist).length := by
  have hle : (fetched hist).length ≤ (received hist).length := by
    rw [J.arrived, List.length_append]
    exact Nat.le_add_right_of_le J.fetched_le
  refine List.ext_getElem (by simp [hle]) fun k hk _ => ?_
  have hrec := h k _ (List.getElem?_eq_getElem hk)
  rw [List.getElem_take]
  exact (List.getElem?_eq_some_iff.mp hrec).2.symm

/-- The shell waits, and no character is on its way to it. -/
structure Console.AllRead (x : Console) : Prop where
  returned : x.uartInit.isReturned = true
  waits : x.shellTask ∈ x.kernel.semList x.semUartRx
  noPost : ¬ AtUartPost x.toSystem
  rxFifo : x.rxFifo = []

/-- A shell that waits has left no more characters unread than there have been posts refused. -/
theorem ConsoleInv.allRead (J : ConsoleInv hist x) (h : x.AllRead) :
    (fetched hist).length + lost hist = (received hist).length := by
  have hbal := J.balance h.returned
  obtain ⟨ph, I⟩ := J.kernel
  have hzero := (I.sems.waiting _ _ (I.linked.mem_semList.mp h.waits)).2
  have hgranted : x.granted = 0 := if_neg fun hg => hg.2 h.waits
  have hunder : x.underway = 0 := if_neg h.noPost
  rw [J.arrived, h.rxFifo, List.append_nil]
  omega

/-- **What is typed is what runs**, and what the terminal shows behind the prompt is what has been
typed of the next line. -/
theorem typed_is_run (r : Run consoleMachine hist x)
    (hkept : Always (fun pre e => e.2 = .read → SlotKept pre) hist) {cmdBuf : List CChar}
    (hbuf : cmdBuf.length = shellShowMaxLen) (idx : Nat) {cmds : Nat → List CChar}
    (hcmds : ∀ i, (cmds i).length = 16) :
    let chars := (received hist).take (fetched hist).length
    (∃ events, sessionEvents cmdBuf idx cmds hist = some events ∧
      events.map ShellEvent.withText = (typedLines [] chars).flatMap lineEvents) ∧
    (∀ (t : Screen CChar) p, t.Shows cSpace p →
      ((shellTask cmdBuf idx (fetched hist)).echoed.foldl (Screen.feed cBackspace) t).Shows cSpace
        (p ++ typedLine [] chars)) ∧
    (x.AllRead → (fetched hist).length + lost hist = (received hist).length) := by
  have J := ConsoleInv.of_run r
  have hchars := J.fetched_eq (inOrder_of_kept r hkept)
  intro chars
  rw [show chars = fetched hist from hchars.symm, ← editedLine_eq]
  exact ⟨dispatchLines_eq hcmds (shellTask_lines hbuf idx (fetched hist)) 0,
    (shellTask_inv hbuf idx (fetched hist)).echo, J.allRead⟩

/-- `ps` and a line end. -/
def psActs : List ConsoleAct :=
  [.enableInt, .semCreate] ++ ([112, 115, 13].map fun c => ConsoleAct.sys (.rx c)) ++
    [.sys (.irq 33)] ++ List.replicate 8 (.sys .hwi) ++ shellActs ++
    [.read, .pend, .read, .pend, .read, .pend]

theorem typed_is_run_ps :
    let hist := trace ConsoleAct.exec consoleBoot psActs
    (∃ events, sessionEvents (List.replicate shellShowMaxLen cNul) 0
        (fun _ => List.replicate 16 cNul) hist = some events ∧
      events.map ShellEvent.withText = [.call .ps []]) ∧
    (fetched hist).length + lost hist = 3 := by
  intro hist
  have r : Run consoleMachine hist (psActs.foldl ConsoleAct.exec consoleBoot) :=
    Run.ofList (M := consoleMachine) consoleBoot_start psActs (by decide +kernel)
  have hcmds : ∀ _ : Nat, (List.replicate 16 cNul).length = 16 := fun _ => List.length_replicate
  obtain ⟨⟨events, hevents, htext⟩, -, hall⟩ := typed_is_run r (by decide +kernel)
    (List.length_replicate (n := shellShowMaxLen) (a := cNul)) 0 hcmds
  exact ⟨⟨events, hevents, htext.trans (by decide +kernel)⟩,
    (hall ⟨by decide +kernel, by decide +kernel, by decide +kernel, by decide +kernel⟩).trans
      (by decide +kernel)⟩

end MiniEuler
