import Mathlib.Data.BitVec
import Mathlib.Data.Set.Lattice
import Mathlib.Order.CompletePartialOrder
import Mathlib.Data.List.Basic

/-! A memory of bytes that is read and written in little-endian double words. Addresses wrap
around, and a word may start at any of them. -/

namespace MiniEuler.Library

abbrev ByteMem := BitVec 64 → BitVec 8

/-- The `n` addresses from `base` on. -/
def Span (base : BitVec 64) (n : Nat) : Set (BitVec 64) := {a | (a - base).toNat < n}

def load64 (mem : ByteMem) (a : BitVec 64) : BitVec 64 :=
  mem (a + 7) ++ mem (a + 6) ++ mem (a + 5) ++ mem (a + 4) ++ mem (a + 3) ++ mem (a + 2) ++
    mem (a + 1) ++ mem (a + 0)

def store64 (mem : ByteMem) (a v : BitVec 64) : ByteMem := fun b =>
  if (b - a).toNat < 8 then v.extractLsb' (8 * (b - a).toNat) 8 else mem b

variable {mem mem' : ByteMem} {a b base v : BitVec 64} {n : Nat} {ws ws' : List (BitVec 64)}

theorem mem_span : a ∈ Span base n ↔ (a - base).toNat < n := Iff.rfl

theorem store64_of_notMem (h : b ∉ Span a 8) : store64 mem a v b = mem b := if_neg h

@[simp] theorem load64_store64 (mem : ByteMem) (a v : BitVec 64) :
    load64 (store64 mem a v) a = v := by
  have hbyte : ∀ i : BitVec 64, i < 8 →
      store64 mem a v (a + i) = v.extractLsb' (8 * i.toNat) 8 := fun i hi => by
    have hoff : a + i - a = i := by rw [BitVec.add_comm, BitVec.add_sub_cancel]
    rw [store64, hoff]
    exact if_pos (BitVec.lt_def.mp hi)
  rw [load64, hbyte 7 (by decide), hbyte 6 (by decide), hbyte 5 (by decide), hbyte 4 (by decide),
    hbyte 3 (by decide), hbyte 2 (by decide), hbyte 1 (by decide), hbyte 0 (by decide)]
  have hjoin : ∀ {i j n : Nat}, i = j + 8 →
      v.extractLsb' i n ++ v.extractLsb' j 8 = v.extractLsb' j (n + 8) :=
    fun h => BitVec.extractLsb'_append_extractLsb'_eq_extractLsb' h
  rw [hjoin (by decide), hjoin (by decide), hjoin (by decide), hjoin (by decide),
    hjoin (by decide), hjoin (by decide), hjoin (by decide)]
  exact BitVec.extractLsb'_eq_self

/-- A word is what its eight bytes are. -/
theorem load64_congr (h : ∀ b ∈ Span a 8, mem' b = mem b) : load64 mem' a = load64 mem a := by
  have hbyte : ∀ i : BitVec 64, i < 8 → mem' (a + i) = mem (a + i) := fun i hi => by
    refine h _ ?_
    rw [mem_span, BitVec.add_comm, BitVec.add_sub_cancel]
    exact BitVec.lt_def.mp hi
  simp only [load64, hbyte _ (show (7 : BitVec 64) < 8 by decide),
    hbyte _ (show (6 : BitVec 64) < 8 by decide), hbyte _ (show (5 : BitVec 64) < 8 by decide),
    hbyte _ (show (4 : BitVec 64) < 8 by decide), hbyte _ (show (3 : BitVec 64) < 8 by decide),
    hbyte _ (show (2 : BitVec 64) < 8 by decide), hbyte _ (show (1 : BitVec 64) < 8 by decide),
    hbyte _ (show (0 : BitVec 64) < 8 by decide)]

theorem load64_store64_of_disjoint (h : Disjoint (Span a 8) (Span b 8)) :
    load64 (store64 mem b v) a = load64 mem a :=
  load64_congr fun _ hc => store64_of_notMem (Set.disjoint_left.mp h hc)

/-! ## Spans -/

/-- The `n` bytes from `a` on and the `m` bytes from `b` on have none in common. -/
def SpansApart (a : BitVec 64) (n : Nat) (b : BitVec 64) (m : Nat) : Prop :=
  n ≤ (b - a).toNat ∧ m ≤ (a - b).toNat

instance (a : BitVec 64) (n : Nat) (b : BitVec 64) (m : Nat) : Decidable (SpansApart a n b m) :=
  inferInstanceAs (Decidable (_ ∧ _))

theorem SpansApart.disjoint {m : Nat} (h : SpansApart a n b m) :
    Disjoint (Span a n) (Span b m) := by
  obtain ⟨hn, hm⟩ := h
  rw [Set.disjoint_left]
  intro c hc hc'
  simp only [mem_span] at hc hc'
  bv_omega

theorem SpansApart.symm {m : Nat} (h : SpansApart a n b m) : SpansApart b m a n := ⟨h.2, h.1⟩

theorem span_subset_span {m : Nat} (h : (a - b).toNat + n ≤ m) : Span a n ⊆ Span b m := by
  intro c hc
  rw [mem_span] at hc ⊢
  bv_omega

/-! ## Runs of words -/

theorem add_word (base : BitVec 64) (k : Nat) :
    base + 8 + BitVec.ofNat 64 (8 * k) = base + BitVec.ofNat 64 (8 * (k + 1)) := by
  rw [Nat.mul_succ, BitVec.ofNat_add, BitVec.add_assoc, BitVec.add_comm 8]
  rfl

/-- The words from `base` on are those of the list. -/
def WordsAt (mem : ByteMem) : (base : BitVec 64) → List (BitVec 64) → Prop
  | _, [] => True
  | base, w :: ws => load64 mem base = w ∧ WordsAt mem (base + 8) ws

def storeWords (mem : ByteMem) : (base : BitVec 64) → List (BitVec 64) → ByteMem
  | _, [] => mem
  | base, w :: ws => storeWords (store64 mem base w) (base + 8) ws

theorem wordsAt_append : WordsAt mem base (ws ++ ws') ↔
    WordsAt mem base ws ∧ WordsAt mem (base + BitVec.ofNat 64 (8 * ws.length)) ws' := by
  induction ws generalizing base with
  | nil => simp [WordsAt]
  | cons w ws ih =>
    rw [List.cons_append, WordsAt, WordsAt, ih, add_word, List.length_cons, and_assoc]

theorem WordsAt.word (h : WordsAt mem base ws) {k : Nat} {w : BitVec 64} (hk : ws[k]? = some w) :
    load64 mem (base + BitVec.ofNat 64 (8 * k)) = w := by
  induction ws generalizing base k with
  | nil => cases hk
  | cons v ws ih =>
    cases k with
    | zero =>
      obtain rfl := Option.some.inj hk
      simpa using h.1
    | succ k =>
      rw [← add_word]
      exact ih h.2 hk

theorem span_cons (hn : n + 8 ≤ 2 ^ 64) :
    Span base (n + 8) = Span base 8 ∪ Span (base + 8) n := by
  ext a
  simp only [Set.mem_union, mem_span]
  bv_omega

theorem disjoint_span_cons (hn : n + 8 ≤ 2 ^ 64) : Disjoint (Span base 8) (Span (base + 8) n) := by
  rw [Set.disjoint_left]
  intro a ha hb
  simp only [mem_span] at ha hb
  bv_omega

/-- **Frame rule** for words. -/
theorem WordsAt.congr (hn : 8 * ws.length ≤ 2 ^ 64)
    (h : ∀ a ∈ Span base (8 * ws.length), mem' a = mem a) (hw : WordsAt mem base ws) :
    WordsAt mem' base ws := by
  induction ws generalizing base with
  | nil => trivial
  | cons w ws ih =>
    rw [List.length_cons, Nat.mul_succ] at hn h
    rw [span_cons hn] at h
    exact ⟨(load64_congr fun a ha => h a (Or.inl ha)).trans hw.1,
      ih (by omega) (fun a ha => h a (Or.inr ha)) hw.2⟩

theorem storeWords_of_notMem (hn : 8 * ws.length ≤ 2 ^ 64)
    (h : a ∉ Span base (8 * ws.length)) : storeWords mem base ws a = mem a := by
  induction ws generalizing base mem with
  | nil => rfl
  | cons w ws ih =>
    rw [List.length_cons, Nat.mul_succ] at hn h
    rw [span_cons hn, Set.mem_union, not_or] at h
    rw [storeWords, ih (by omega) h.2, store64_of_notMem h.1]

theorem wordsAt_storeWords (hn : 8 * ws.length ≤ 2 ^ 64) :
    WordsAt (storeWords mem base ws) base ws := by
  induction ws generalizing base mem with
  | nil => trivial
  | cons w ws ih =>
    rw [List.length_cons, Nat.mul_succ] at hn
    refine ⟨?_, ih (by omega)⟩
    rw [storeWords, load64_congr fun a ha => storeWords_of_notMem (by omega)
      (Set.disjoint_left.mp (disjoint_span_cons hn) ha), load64_store64]

end MiniEuler.Library
