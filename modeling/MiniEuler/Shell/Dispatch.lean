import MiniEuler.Bsp.CString

/-! The commands of the shell: `ShellDispatchCmd` and what it uses. -/

namespace MiniEuler

inductive ShellCmdHandler
  | help
  | ps
  | top
  | tick
  | memStat
  | semStat
  | ipc
  | ipcs
  | demo
  | quit
  deriving DecidableEq, Repr

structure ShellCmd where
  name : List CChar
  handler : ShellCmdHandler
  deriving DecidableEq, Repr

def gShellCmds : List ShellCmd :=
  [⟨cChars "help", .help⟩, ⟨cChars "ps", .ps⟩, ⟨cChars "top", .top⟩, ⟨cChars "tick", .tick⟩,
    ⟨cChars "memstat", .memStat⟩, ⟨cChars "semstat", .semStat⟩, ⟨cChars "ipc", .ipc⟩,
    ⟨cChars "ipcs", .ipcs⟩, ⟨cChars "demo", .demo⟩, ⟨cChars "quit", .quit⟩]

/-- What `ShellDispatchCmd` does to the outside: a handler is called with the
object that `args` points to, or a text is printed. -/
inductive ShellEvent
  | call (handler : ShellCmdHandler) (args : List CChar)
  | print (text : List CChar)
  deriving DecidableEq, Repr

def shellStrEqual : List CChar → List CChar → Option Bool
  | a :: as, b :: bs =>
    if a ≠ cNul ∧ b ≠ cNul then
      if a ≠ b then some false else shellStrEqual as bs
    else some (a = cNul ∧ b = cNul)
  | _, _ => none

/-- The loop that copies the first token; `line` is at `line[i]`. -/
def shellToken : List CChar → List CChar → Nat → Option (List CChar × List CChar × Nat)
  | [], _, _ => none
  | c :: line, cmd, i =>
    if c ≠ cNul ∧ c ≠ cSpace ∧ i < 16 - 1 then
      match storeAt cmd i c with
      | none => none
      | some cmd => shellToken line cmd (i + 1)
    else some (c :: line, cmd, i)

/-- `while (*args == ' ') args++` -/
def shellSkipSpaces : List CChar → Option (List CChar)
  | [] => none
  | c :: args => if c = cSpace then shellSkipSpaces args else some (c :: args)

/-- The loop over the command table. -/
def shellFindCmd (cmd : List CChar) : List ShellCmd → Option (Option ShellCmd)
  | [] => some none
  | e :: es =>
    match shellStrEqual cmd (e.name ++ [cNul]) with
    | none => none
    | some true => some (some e)
    | some false => shellFindCmd cmd es

/-- What is printed for a token that names no command. -/
def unknownCmd (cmd : List CChar) : List ShellEvent :=
  [.print (cChars "Unknown command: " ++ cText cmd ++ cChars "\n"),
    .print (cChars "Type 'help' to see available commands.\n")]

/-- `line` is `none` for NULL, and `cmd` is the local array as it is found. -/
def shellDispatchCmd (line : Option (List CChar)) (cmd : List CChar) :
    Option (List ShellEvent) :=
  match line with
  | none => some []
  | some [] => none
  | some (c :: line) =>
    if c = cNul then some []
    else
      match shellToken (c :: line) cmd 0 with
      | none => none
      | some (line, cmd, i) =>
        match storeAt cmd i cNul with
        | none => none
        | some cmd =>
          match shellSkipSpaces line with
          | none => none
          | some args =>
            match shellFindCmd cmd gShellCmds with
            | none => none
            | some none => some (unknownCmd cmd)
            | some (some e) => some [.call e.handler args]

/-! ## The loops -/

variable {l t n g : List CChar}

/-- Two terminated strings are equal exactly when their texts are. -/
theorem shellStrEqual_eq (ht : cNul ∉ t) (hn : cNul ∉ n) (g g' : List CChar) :
    shellStrEqual (t ++ cNul :: g) (n ++ cNul :: g') = some (decide (t = n)) := by
  induction t generalizing n with
  | nil =>
    cases n with
    | nil => simp [shellStrEqual]
    | cons b n =>
      have hb : b ≠ cNul := fun h => hn (by simp [h])
      simp [shellStrEqual, hb]
  | cons a t ih =>
    obtain ⟨ha, ht⟩ := not_or.mp (List.mem_cons.not.mp ht)
    cases n with
    | nil => simp [shellStrEqual, Ne.symm ha]
    | cons b n =>
      obtain ⟨hb, hn⟩ := not_or.mp (List.mem_cons.not.mp hn)
      rw [List.cons_append, List.cons_append, shellStrEqual,
        if_pos ⟨Ne.symm ha, Ne.symm hb⟩, ih ht hn]
      by_cases hab : a = b
      · simp [hab]
      · simp [hab]

theorem shellSkipSpaces_eq (hl : cNul ∉ l) (g : List CChar) :
    shellSkipSpaces (l ++ cNul :: g) = some (l.dropWhile (· = cSpace) ++ cNul :: g) := by
  induction l with
  | nil =>
    have h : cNul ≠ cSpace := by decide
    simp [shellSkipSpaces, h]
  | cons c l ih =>
    have hl' := (not_or.mp (List.mem_cons.not.mp hl)).2
    by_cases hc : c = cSpace
    · simp [shellSkipSpaces, hc, ih hl']
    · simp [shellSkipSpaces, hc]

/-- The part of the first token that fits behind the `i` characters copied so far. -/
def tokenPart (i : Nat) (l : List CChar) : List CChar :=
  (l.takeWhile (· ≠ cSpace)).take (15 - i)

theorem shellToken_eq (hl : cNul ∉ l) (g : List CChar) {cmd : List CChar}
    (hcmd : cmd.length = 16) {i : Nat} (hi : i ≤ 15) : ∃ cmd', cmd'.length = 16 ∧
    cmd'.take (i + (tokenPart i l).length) = cmd.take i ++ tokenPart i l ∧
    shellToken (l ++ cNul :: g) cmd i = some (l.drop (tokenPart i l).length ++ cNul :: g,
      cmd', i + (tokenPart i l).length) := by
  induction l generalizing cmd i with
  | nil => exact ⟨cmd, hcmd, by simp [tokenPart], by simp [shellToken, tokenPart]⟩
  | cons c l ih =>
    obtain ⟨hc, hl⟩ := not_or.mp (List.mem_cons.not.mp hl)
    by_cases hstop : c = cSpace ∨ i = 15
    · have hpart : tokenPart i (c :: l) = [] := by
        rcases hstop with rfl | rfl <;> simp [tokenPart]
      have hif : ¬ (c ≠ cNul ∧ c ≠ cSpace ∧ i < 16 - 1) := by
        rintro ⟨-, hs, hlt⟩
        rcases hstop with h | h
        · exact hs h
        · omega
      rw [hpart]
      exact ⟨cmd, hcmd, by simp, by rw [List.cons_append, shellToken, if_neg hif]; simp⟩
    · obtain ⟨hs, hlt⟩ := not_or.mp hstop
      obtain ⟨n, hn⟩ : ∃ n, 15 - i = n + 1 := ⟨14 - i, by omega⟩
      have hn' : 15 - (i + 1) = n := by omega
      have hpart : tokenPart i (c :: l) = c :: tokenPart (i + 1) l := by
        simp [tokenPart, hs, hn, hn']
      have hset : (cmd.set i c).length = 16 := by simpa using hcmd
      obtain ⟨cmd', hlen, htake, heq⟩ := ih hl hset (i := i + 1) (by omega)
      rw [hpart, List.length_cons, List.drop_succ_cons,
        show i + ((tokenPart (i + 1) l).length + 1) = i + 1 + (tokenPart (i + 1) l).length by omega]
      refine ⟨cmd', hlen, ?_, ?_⟩
      · rw [htake, List.take_succ_eq_append_getElem (by simp; omega),
          List.take_set_of_le (Nat.le_refl i)]
        simp
      · rw [List.cons_append, shellToken, if_pos ⟨Ne.symm hc, hs, by omega⟩, storeAt,
          if_pos (by omega)]
        exact heq

theorem shellFindCmd_eq (ht : cNul ∉ t) (g : List CChar) {es : List ShellCmd}
    (hes : ∀ e ∈ es, cNul ∉ e.name) :
    shellFindCmd (t ++ cNul :: g) es = some (es.find? fun e => t = e.name) := by
  induction es with
  | nil => rfl
  | cons e es ih =>
    have he := shellStrEqual_eq ht (hes e (by simp)) g []
    rw [shellFindCmd, he]
    by_cases h : t = e.name
    · simp [h]
    · simpa [h] using ih fun e' he' => hes e' (List.mem_cons_of_mem e he')

/-! ## Dispatch -/

/-- The longest prefix of the line without a space. -/
def firstToken (line : List CChar) : List CChar := line.takeWhile (· ≠ cSpace)

/-- The line from the first character behind the token that is no space. -/
def tokenArgs (line : List CChar) : List CChar :=
  (line.dropWhile (· ≠ cSpace)).dropWhile (· = cSpace)

/-- The token as `cmd` holds it. -/
def cutToken (line : List CChar) : List CChar := (firstToken line).take 15

theorem cutToken_eq_name {line : List CChar} {e : ShellCmd} (he : e ∈ gShellCmds) :
    cutToken line = e.name ↔ firstToken line = e.name := by
  have hlen : e.name.length < 15 := by
    revert e
    decide
  constructor
  · intro h
    have hcut : (cutToken line).length = min 15 (firstToken line).length := List.length_take
    rw [h] at hcut
    rw [← h, cutToken, List.take_of_length_le (by omega)]
  · intro h
    rw [cutToken, h, List.take_of_length_le (by omega)]

theorem names_ne_nul : ∀ e ∈ gShellCmds, cNul ∉ e.name := by decide

/-- What `ShellDispatchCmd` does with a line that is not empty. -/
theorem shellDispatchCmd_eq {line : List CChar} (hl : cNul ∉ line) (hne : line ≠ [])
    (g : List CChar) {cmd : List CChar} (hcmd : cmd.length = 16) :
    shellDispatchCmd (some (line ++ cNul :: g)) cmd = some
      (match gShellCmds.find? fun e => cutToken line = e.name with
      | none => [.print (cChars "Unknown command: " ++ cutToken line ++ cChars "\n"),
          .print (cChars "Type 'help' to see available commands.\n")]
      | some e => [.call e.handler (tokenArgs line ++ cNul :: g)]) := by
  obtain ⟨c, l, rfl⟩ := List.exists_cons_of_ne_nil hne
  have hc : c ≠ cNul := fun h => hl (by simp [h])
  obtain ⟨cmd', hlen, htake, htok⟩ := shellToken_eq hl g hcmd (i := 0) (by omega)
  have hpart : tokenPart 0 (c :: l) = cutToken (c :: l) := rfl
  rw [hpart] at htake htok
  simp only [Nat.zero_add, List.take_zero, List.nil_append] at htake htok
  have hle : (cutToken (c :: l)).length ≤ 15 := by simp [cutToken]
  have hnul : cNul ∉ cutToken (c :: l) := fun h =>
    hl ((List.takeWhile_subset _) (List.mem_of_mem_take h))
  have hcmd' : cmd'.set (cutToken (c :: l)).length cNul =
      cutToken (c :: l) ++ cNul :: cmd'.drop ((cutToken (c :: l)).length + 1) := by
    rw [List.set_eq_take_append_cons_drop, if_pos (by omega), htake]
  have htext : cText (cutToken (c :: l) ++ cNul :: cmd'.drop ((cutToken (c :: l)).length + 1)) =
      cutToken (c :: l) := cText_append hnul _
  have hdrop : cNul ∉ (c :: l).drop (cutToken (c :: l)).length :=
    fun h => hl (List.mem_of_mem_drop h)
  rw [List.cons_append, shellDispatchCmd, if_neg hc]
  rw [← List.cons_append, htok]
  simp only [storeAt, hlen, show (cutToken (c :: l)).length < 16 by omega, ↓reduceIte, hcmd',
    shellSkipSpaces_eq hdrop, shellFindCmd_eq hnul _ names_ne_nul]
  cases hf : gShellCmds.find? fun e => cutToken (c :: l) = e.name with
  | none => simp only [unknownCmd, htext]
  | some e =>
    have hname : firstToken (c :: l) = e.name :=
      (cutToken_eq_name (List.mem_of_find?_eq_some hf)).mp (by simpa using List.find?_some hf)
    have hargs : (c :: l).drop (cutToken (c :: l)).length =
        (c :: l).dropWhile (· ≠ cSpace) := by
      rw [(cutToken_eq_name (List.mem_of_find?_eq_some hf)).mpr hname, ← hname]
      have hsplit : firstToken (c :: l) ++ (c :: l).dropWhile (· ≠ cSpace) = c :: l :=
        List.takeWhile_append_dropWhile
      calc (c :: l).drop (firstToken (c :: l)).length
          = (firstToken (c :: l) ++ (c :: l).dropWhile (· ≠ cSpace)).drop
              (firstToken (c :: l)).length := by rw [hsplit]
        _ = (c :: l).dropWhile (· ≠ cSpace) := List.drop_left' rfl
    rw [tokenArgs, hargs]

/-- **A line calls the handler its first token names, or none.** -/
theorem dispatch_exact {line : List CChar} (hl : cNul ∉ line) {cmd : List CChar}
    (hcmd : cmd.length = 16) :
    ∃ events, shellDispatchCmd (some (line ++ [cNul])) cmd = some events ∧
      (events.countP fun e => e matches .call _ _) ≤ 1 ∧
      (∀ n, (hn : n < gShellCmds.length) → ∀ args,
        .call gShellCmds[n].handler args ∈ events ↔
          firstToken line = gShellCmds[n].name ∧ args = tokenArgs line ++ [cNul]) ∧
      (15 < (firstToken line).length → ∀ handler args, .call handler args ∉ events) ∧
      (line ≠ [] → (∀ e ∈ gShellCmds, firstToken line ≠ e.name) →
        events = [.print (cChars "Unknown command: " ++ (firstToken line).take 15 ++ cChars "\n"),
          .print (cChars "Type 'help' to see available commands.\n")]) ∧
      (line = [] → events = []) := by
  have hname : ∀ n, (hn : n < gShellCmds.length) → gShellCmds[n].name ≠ [] := by decide
  have hshort : ∀ e ∈ gShellCmds, e.name.length ≤ 15 := by decide
  by_cases hne : line = []
  · subst hne
    refine ⟨[], rfl, by simp, fun n hn args => ?_, by simp, by simp, by simp⟩
    simpa [firstToken] using fun h => absurd h (hname n hn)
  · refine ⟨_, shellDispatchCmd_eq hl hne [] hcmd, ?_⟩
    cases hf : gShellCmds.find? fun e => cutToken line = e.name with
    | none =>
      have hno : ∀ e ∈ gShellCmds, firstToken line ≠ e.name := by
        intro e he h
        simpa [(cutToken_eq_name he).mpr h] using List.find?_eq_none.mp hf e he
      refine ⟨by simp, fun n hn args => ?_, by simp, fun _ _ => rfl, fun h => absurd h hne⟩
      simpa using fun h => absurd h (hno _ (List.getElem_mem hn))
    | some e =>
      have he := List.mem_of_find?_eq_some hf
      have htok : firstToken line = e.name :=
        (cutToken_eq_name he).mp (by simpa using List.find?_some hf)
      refine ⟨by simp, fun n hn args => ?_, fun hlong => ?_, fun _ hno => absurd htok (hno e he),
        fun h => absurd h hne⟩
      · have hdistinct : ∀ e ∈ gShellCmds, ∀ e' ∈ gShellCmds,
            e.handler = e'.handler ↔ e.name = e'.name := by decide
        have hiff := hdistinct _ (List.getElem_mem hn) e he
        rw [htok]
        simp only [List.mem_singleton, ShellEvent.call.injEq]
        rw [hiff, eq_comm (a := e.name)]
      · have := hshort e he
        rw [htok] at hlong
        omega

/-- A token of 15 characters or more that starts with a command calls nothing. -/
theorem dispatch_long_token : ∃ events,
    shellDispatchCmd (some (cChars "quitquitquitquitquit now" ++ [cNul]))
      (List.replicate 16 cNul) = some events ∧ ∀ handler args, .call handler args ∉ events := by
  have hl : cNul ∉ cChars "quitquitquitquitquit now" := by decide
  have hcmd : (List.replicate 16 cNul).length = 16 := rfl
  obtain ⟨events, h, -, -, hlong, -⟩ := dispatch_exact hl hcmd
  exact ⟨events, h, hlong (by decide)⟩

end MiniEuler
