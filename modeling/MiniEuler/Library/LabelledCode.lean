import Mathlib.Data.BitVec
import Mathlib.Logic.Relation

/-! Machine code with labels and branches, over any set of instructions that work on the data of a
processor. An instruction takes four bytes, and the code stands at any address. -/

namespace MiniEuler.Library

/-- What the instructions `I` do to the data `σ`, what the conditions `C` ask of it, and where it
has the link register. -/
structure Isa (I C σ : Type) where
  exec : I → σ → σ
  holds : C → σ → Bool
  link : σ → BitVec 64
  setLink : BitVec 64 → σ → σ

inductive CodeInstr (I C L : Type)
  | data (i : I)
  | b (l : L)
  | bIf (c : C) (l : L)
  | bl (l : L)
  | ret
  deriving DecidableEq, Repr

inductive CodeLine (I C L : Type)
  | label (l : L)
  | instr (i : CodeInstr I C L)
  deriving DecidableEq, Repr

/-- The data of a processor, and where it goes on. -/
structure CodePoint (σ : Type) where
  data : σ
  pc : BitVec 64

variable {I C L σ : Type}

def instrsOf : List (CodeLine I C L) → List (CodeInstr I C L)
  | [] => []
  | .label _ :: code => instrsOf code
  | .instr i :: code => i :: instrsOf code

/-- How many instructions stand before a label. -/
def placeOf [DecidableEq L] (l : L) : List (CodeLine I C L) → Nat
  | [] => 0
  | .label l' :: code => if l' = l then 0 else placeOf l code
  | .instr _ :: code => placeOf l code + 1

/-- The address of instruction `i`. -/
def codeAddr (base : BitVec 64) (i : Nat) : BitVec 64 := base + BitVec.ofNat 64 (4 * i)

def fetchAt (code : List (CodeLine I C L)) (base pc : BitVec 64) : Option (CodeInstr I C L) :=
  if (pc - base).toNat % 4 = 0 then (instrsOf code)[(pc - base).toNat / 4]? else none

/-- One instruction; none where there is no code. -/
def codeStep [DecidableEq L] (M : Isa I C σ) (code : List (CodeLine I C L)) (base : BitVec 64)
    (p : CodePoint σ) : Option (CodePoint σ) :=
  let target (l : L) := codeAddr base (placeOf l code)
  match fetchAt code base p.pc with
  | none => none
  | some (.data i) => some ⟨M.exec i p.data, p.pc + 4⟩
  | some (.b l) => some ⟨p.data, target l⟩
  | some (.bIf c l) => some ⟨p.data, if M.holds c p.data then target l else p.pc + 4⟩
  | some (.bl l) => some ⟨M.setLink (p.pc + 4) p.data, target l⟩
  | some .ret => some ⟨p.data, M.link p.data⟩

/-- Step by step, the code comes from one point to another. -/
def CodeReaches [DecidableEq L] (M : Isa I C σ) (code : List (CodeLine I C L)) (base : BitVec 64) :
    CodePoint σ → CodePoint σ → Prop :=
  Relation.ReflTransGen fun p q => codeStep M code base p = some q

/-- From instruction `i` and data in `P`, the code comes to `pc` with data in `Q`. -/
def Leads [DecidableEq L] (M : Isa I C σ) (code : List (CodeLine I C L)) (base : BitVec 64)
    (P : σ → Prop) (i : Nat) (pc : BitVec 64) (Q : σ → Prop) : Prop :=
  ∀ s, P s → ∃ s', CodeReaches M code base ⟨s, codeAddr base i⟩ ⟨s', pc⟩ ∧ Q s'

/-- Runs that have ended have ended in the same way. -/
theorem CodeReaches.unique [DecidableEq L] {M : Isa I C σ} {code : List (CodeLine I C L)}
    {base : BitVec 64} {p q q' : CodePoint σ} (h : CodeReaches M code base p q)
    (h' : CodeReaches M code base p q') (hq : codeStep M code base q = none)
    (hq' : codeStep M code base q' = none) : q = q' := by
  have huniq : Relator.RightUnique fun p q => codeStep M code base p = some q :=
    fun _ _ _ hb hc => Option.some.inj (hb.symm.trans hc)
  rcases Relation.ReflTransGen.total_of_right_unique huniq h h' with hr | hr
  · rcases hr.cases_head with rfl | ⟨_, hstep, -⟩
    · rfl
    · rw [hq] at hstep
      cases hstep
  · rcases hr.cases_head with rfl | ⟨_, hstep, -⟩
    · rfl
    · rw [hq'] at hstep
      cases hstep

/-! ## Addresses -/

theorem codeAddr_succ (base : BitVec 64) (i : Nat) :
    codeAddr base i + 4 = codeAddr base (i + 1) := by
  have h : BitVec.ofNat 64 (4 * (i + 1)) = BitVec.ofNat 64 (4 * i) + 4 := by
    rw [Nat.mul_succ, BitVec.ofNat_add]
    rfl
  rw [codeAddr, codeAddr, h, BitVec.add_assoc]

theorem fetchAt_codeAddr {code : List (CodeLine I C L)} (hlen : (instrsOf code).length ≤ 2 ^ 62)
    (base : BitVec 64) {i : Nat} {instr : CodeInstr I C L} (h : (instrsOf code)[i]? = some instr) :
    fetchAt code base (codeAddr base i) = some instr := by
  obtain ⟨hi, -⟩ := List.getElem?_eq_some_iff.mp h
  have hd : (codeAddr base i - base).toNat = 4 * i := by
    have hsub : codeAddr base i - base = BitVec.ofNat 64 (4 * i) := by
      unfold codeAddr
      bv_omega
    rw [hsub, BitVec.toNat_ofNat, Nat.mod_eq_of_lt (by omega)]
  rw [fetchAt, hd, if_pos (by omega), Nat.mul_div_cancel_left i (by decide), h]

section
variable [DecidableEq L] {M : Isa I C σ} {code : List (CodeLine I C L)} {b : BitVec 64}
variable (hlen : (instrsOf code).length ≤ 2 ^ 62)
variable {P P' Q Q' R : σ → Prop} {i j : Nat} {pc : BitVec 64} {l : L} {c : C}
include hlen

/-! ## Single instructions -/

theorem reaches_data {d : I} {s : σ} (h : (instrsOf code)[i]? = some (.data d)) :
    CodeReaches M code b ⟨s, codeAddr b i⟩ ⟨M.exec d s, codeAddr b (i + 1)⟩ :=
  .single (by rw [codeStep, fetchAt_codeAddr hlen b h, ← codeAddr_succ])

theorem leads_b (h : (instrsOf code)[i]? = some (.b l)) :
    Leads M code b P i (codeAddr b (placeOf l code)) P :=
  fun s hs => ⟨s, .single (by rw [codeStep, fetchAt_codeAddr hlen b h]), hs⟩

theorem leads_taken (h : (instrsOf code)[i]? = some (.bIf c l))
    (hc : ∀ s, P s → M.holds c s = true) :
    Leads M code b P i (codeAddr b (placeOf l code)) P :=
  fun s hs => ⟨s, .single (by simp [codeStep, fetchAt_codeAddr hlen b h, hc s hs]), hs⟩

theorem leads_passed (h : (instrsOf code)[i]? = some (.bIf c l))
    (hc : ∀ s, P s → M.holds c s = false) :
    Leads M code b P i (codeAddr b (i + 1)) P :=
  fun s hs => ⟨s, .single (by
    simp [codeStep, fetchAt_codeAddr hlen b h, hc s hs, ← codeAddr_succ]), hs⟩

/-- A call links the instruction behind it. -/
theorem leads_bl (h : (instrsOf code)[i]? = some (.bl l))
    (hp : ∀ s, P s → Q (M.setLink (codeAddr b (i + 1)) s)) :
    Leads M code b P i (codeAddr b (placeOf l code)) Q :=
  fun s hs => ⟨_, .single (by rw [codeStep, fetchAt_codeAddr hlen b h]),
    codeAddr_succ b i ▸ hp s hs⟩

theorem leads_ret (h : (instrsOf code)[i]? = some .ret) (hp : ∀ s, P s → M.link s = pc) :
    Leads M code b P i pc P :=
  fun s hs => ⟨s, .single (by rw [codeStep, fetchAt_codeAddr hlen b h, ← hp s hs]), hs⟩

/-! ## Sequences and loops -/

/-- **Straight-line code.** -/
theorem leads_block (is : List I)
    (h : ((instrsOf code).drop i).take is.length = is.map .data)
    (hp : ∀ s, P s → Q (is.foldl (fun s d => M.exec d s) s)) :
    Leads M code b P i (codeAddr b (i + is.length)) Q := by
  intro s hs
  refine ⟨_, ?_, hp s hs⟩
  clear hp hs
  induction is generalizing i s with
  | nil => exact .refl
  | cons d is ih =>
    cases hd : (instrsOf code).drop i with
    | nil => simp [hd] at h
    | cons instr rest =>
      obtain ⟨hhere, hrest⟩ : (instrsOf code)[i]? = some instr ∧
          (instrsOf code).drop (i + 1) = rest := by
        refine ⟨?_, ?_⟩
        · rw [← List.head?_drop, hd, List.head?_cons]
        · rw [← List.tail_drop, hd, List.tail_cons]
      rw [hd, List.length_cons, List.take_succ_cons, List.map_cons, List.cons.injEq] at h
      have hstep := reaches_data (M := M) (b := b) (s := s) hlen (h.1 ▸ hhere)
      have hgo := ih (i := i + 1) (s := M.exec d s) (hrest ▸ h.2)
      rw [List.length_cons, Nat.add_comm is.length 1, ← Nat.add_assoc]
      exact hstep.trans hgo

omit hlen

theorem Leads.seq (h : Leads M code b P i (codeAddr b j) Q)
    (h' : Leads M code b Q j pc R) : Leads M code b P i pc R := by
  intro s hs
  obtain ⟨s', r, hq⟩ := h s hs
  obtain ⟨s'', r', hr⟩ := h' s' hq
  exact ⟨s'', r.trans r', hr⟩

theorem Leads.mono (h : Leads M code b P i pc Q) (hp : ∀ s, P' s → P s)
    (hq : ∀ s, Q s → Q' s) : Leads M code b P' i pc Q' := by
  intro s hs
  obtain ⟨s', r, hs'⟩ := h s (hp s hs)
  exact ⟨s', r, hq s' hs'⟩

/-- **The loop rule**, for a loop that counts down: `T n` where `n` more rounds come after the
one that starts. -/
theorem leads_loop {T : Nat → σ → Prop}
    (hround : ∀ n, Leads M code b (T (n + 1)) i (codeAddr b i) (T n))
    (hlast : Leads M code b (T 0) i pc Q) (n : Nat) : Leads M code b (T n) i pc Q := by
  induction n with
  | zero => exact hlast
  | succ n ih => exact (hround n).seq ih

end

end MiniEuler.Library
