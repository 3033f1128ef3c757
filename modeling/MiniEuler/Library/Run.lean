import Mathlib.Data.List.Forall2

/-! Runs of a deterministic machine whose steps are chosen from outside. The
history of a run lists, oldest first, each step taken with the state it was
taken in. -/

namespace MiniEuler.Library

/-- `Start` and `Allowed` say where a run begins and which steps it may take. -/
structure Machine (σ α : Type) where
  Start : σ → Prop
  Allowed : σ → α → Prop
  exec : σ → α → σ

inductive Run {σ α : Type} (M : Machine σ α) : List (σ × α) → σ → Prop
  | start {s : σ} : M.Start s → Run M [] s
  | step {hist : List (σ × α)} {s : σ} {a : α} :
      Run M hist s → M.Allowed s a → Run M (hist ++ [(s, a)]) (M.exec s a)

variable {σ α : Type} {M N : Machine σ α} {hist : List (σ × α)} {s : σ}

/-- **Invariant rule.** What holds at the start and is kept by every allowed
step holds at the end of every run. -/
theorem Run.invariant (I : σ → Prop) (hstart : ∀ s, M.Start s → I s)
    (hstep : ∀ s a, I s → M.Allowed s a → I (M.exec s a)) (r : Run M hist s) : I s := by
  induction r with
  | start h => exact hstart _ h
  | step _ ha ih => exact hstep _ _ ih ha

/-- The invariant rule for a property of the history and the state. -/
theorem Run.invariant_hist (I : List (σ × α) → σ → Prop) (hstart : ∀ s, M.Start s → I [] s)
    (hstep : ∀ hist s a, Run M hist s → I hist s → M.Allowed s a →
      I (hist ++ [(s, a)]) (M.exec s a)) (r : Run M hist s) : I hist s := by
  induction r with
  | start h => exact hstart _ h
  | step r ha ih => exact hstep _ _ _ r ih ha

/-- An invariant holds in every state of the history too. -/
theorem Run.invariant_mem (I : σ → Prop) (hstart : ∀ s, M.Start s → I s)
    (hstep : ∀ s a, I s → M.Allowed s a → I (M.exec s a)) (r : Run M hist s) :
    ∀ e ∈ hist, I e.1 := by
  induction r with
  | start _ => intro e he; simp at he
  | step r _ ih =>
    intro e he
    rcases List.mem_append.mp he with h | h
    · exact ih e h
    · rw [List.mem_singleton.mp h]
      exact r.invariant I hstart hstep

theorem Run.allowed_mem (r : Run M hist s) : ∀ e ∈ hist, M.Allowed e.1 e.2 := by
  induction r with
  | start h => intro e he; simp at he
  | step _ ha ih =>
    intro e he
    rcases List.mem_append.mp he with h | h
    · exact ih e h
    · rw [List.mem_singleton.mp h]
      exact ha

/-- Fewer starts and fewer allowed steps give fewer runs. -/
theorem Run.mono (hS : ∀ s, M.Start s → N.Start s)
    (hA : ∀ s a, M.Allowed s a → N.Allowed s a) (hE : M.exec = N.exec)
    (r : Run M hist s) : Run N hist s := by
  induction r with
  | start h => exact .start (hS _ h)
  | step _ ha ih => rw [hE]; exact .step ih (hA _ _ ha)

/-- The machine that takes only the steps that `P` admits. -/
def Machine.restrict (M : Machine σ α) (P : σ → α → Prop) : Machine σ α where
  Start := M.Start
  Allowed := fun s a => M.Allowed s a ∧ P s a
  exec := M.exec

/-- A run all of whose steps are admitted is a run of the restricted machine. -/
theorem Run.restrict {P : σ → α → Prop} (r : Run M hist s) (hP : ∀ e ∈ hist, P e.1 e.2) :
    Run (M.restrict P) hist s := by
  induction r with
  | start h => exact .start h
  | @step hist s a _ ha ih =>
    have ih' := ih fun e he => hP e (List.mem_append_left _ he)
    exact .step (M := M.restrict P) ih' ⟨ha, hP (s, a) (by simp)⟩

theorem Run.of_restrict {P : σ → α → Prop} (r : Run (M.restrict P) hist s) : Run M hist s :=
  Run.mono (M := M.restrict P) (fun _ h => h) (fun _ _ h => h.1) rfl r

/-! ## Simulation -/

section
variable {τ β : Type} {A : Machine τ β} {vis : α → Option β} {R : σ → τ → Prop}

/-- `R` relates the states of `M` to those of a machine `A` that sees only some of the steps:
each step it sees is a step of its own, and the others leave it where it is. -/
structure Simulation (M : Machine σ α) (A : Machine τ β) (vis : α → Option β)
    (R : σ → τ → Prop) : Prop where
  start : ∀ s, M.Start s → ∃ t, A.Start t ∧ R s t
  hidden : ∀ s t a, R s t → M.Allowed s a → vis a = none → R (M.exec s a) t
  visible : ∀ s t a b, R s t → M.Allowed s a → vis a = some b →
    A.Allowed t b ∧ R (M.exec s a) (A.exec t b)

/-- The steps of a history that are seen. -/
def seen (vis : α → Option β) (hist : List (σ × α)) : List (σ × β) :=
  hist.filterMap fun e => (vis e.2).map (e.1, ·)

theorem seen_snoc_none {a : α} (h : vis a = none) (hist : List (σ × α)) (s : σ) :
    seen vis (hist ++ [(s, a)]) = seen vis hist := by
  simp [seen, h]

theorem seen_snoc_some {a : α} {b : β} (h : vis a = some b) (hist : List (σ × α)) (s : σ) :
    seen vis (hist ++ [(s, a)]) = seen vis hist ++ [(s, b)] := by
  simp [seen, h]

/-- **Simulation rule.** What is seen of a run is a run, through related states. -/
theorem Simulation.run (S : Simulation M A vis R) (r : Run M hist s) :
    ∃ hist' t, Run A hist' t ∧ R s t ∧
      List.Forall₂ (fun e e' => R e.1 e'.1 ∧ e.2 = e'.2) (seen vis hist) hist' := by
  induction r with
  | start h =>
    obtain ⟨t, ht, hR⟩ := S.start _ h
    exact ⟨[], t, .start ht, hR, .nil⟩
  | @step hist s a _ ha ih =>
    obtain ⟨hist', t, r', hR, hseen⟩ := ih
    cases hvis : vis a with
    | none =>
      refine ⟨hist', t, r', S.hidden s t a hR ha hvis, ?_⟩
      rwa [seen_snoc_none hvis]
    | some b =>
      obtain ⟨ha', hR'⟩ := S.visible s t a b hR ha hvis
      refine ⟨hist' ++ [(t, b)], A.exec t b, r'.step ha', hR', ?_⟩
      rw [seen_snoc_some hvis]
      exact List.rel_append hseen (.cons ⟨hR, rfl⟩ .nil)

end

/-- The steps of a list, each with the state it is taken in. -/
def trace (exec : σ → α → σ) (s : σ) : List α → List (σ × α)
  | [] => []
  | a :: as => (s, a) :: trace exec (exec s a) as

/-- A list of steps that are all allowed is a run. -/
theorem Run.append (r : Run M hist s) (as : List α)
    (ha : ∀ e ∈ trace M.exec s as, M.Allowed e.1 e.2) :
    Run M (hist ++ trace M.exec s as) (as.foldl M.exec s) := by
  induction as generalizing hist s with
  | nil => simpa [trace] using r
  | cons a as ih =>
    have r' := r.step (ha (s, a) (by simp [trace]))
    have h := ih r' fun e he => ha e (by simp [trace, he])
    simpa [trace] using h

theorem Run.ofList (hs : M.Start s) (as : List α)
    (ha : ∀ e ∈ trace M.exec s as, M.Allowed e.1 e.2) :
    Run M (trace M.exec s as) (as.foldl M.exec s) := by
  simpa using (Run.start hs).append as ha

/-- `P` holds of every element of a history, given the part before it. -/
def Always {ε : Type} (P : List ε → ε → Prop) (hist : List ε) : Prop :=
  ∀ pre e post, hist = pre ++ e :: post → P pre e

theorem always_nil {ε : Type} (P : List ε → ε → Prop) : Always P [] := by
  intro pre e post h
  simp at h

theorem always_snoc {ε : Type} (P : List ε → ε → Prop) (hist : List ε) (e : ε) :
    Always P (hist ++ [e]) ↔ Always P hist ∧ P hist e := by
  constructor
  · intro h
    exact ⟨fun pre e' post he => h pre e' (post ++ [e]) (by simp [he]), h hist e [] rfl⟩
  · rintro ⟨hh, hp⟩ pre e' post he
    rcases List.eq_nil_or_concat post with rfl | ⟨post', e'', rfl⟩
    · obtain ⟨rfl, h2⟩ := List.append_inj' he rfl
      rw [← (List.cons.inj h2).1]
      exact hp
    · have h2 : hist ++ [e] = (pre ++ e' :: post') ++ [e''] := by simp [he]
      exact hh pre e' post' (List.append_inj' h2 rfl).1

theorem always_iff {ε : Type} (P : List ε → ε → Prop) (hist : List ε) :
    Always P hist ↔ ∀ (i : Nat) (h : i < hist.length), P (hist.take i) hist[i] := by
  constructor
  · intro h i hi
    refine h (hist.take i) hist[i] (hist.drop (i + 1)) ?_
    rw [← List.drop_eq_getElem_cons hi, List.take_append_drop]
  · intro h pre e post he
    have hi : pre.length < hist.length := by simp [he]
    have := h pre.length hi
    simpa [he] using this

instance {ε : Type} (P : List ε → ε → Prop) [∀ pre e, Decidable (P pre e)] (hist : List ε) :
    Decidable (Always P hist) := decidable_of_iff _ (always_iff P hist).symm

end MiniEuler.Library
