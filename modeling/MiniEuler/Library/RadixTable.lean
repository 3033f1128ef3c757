import Mathlib.Data.Finset.Card
import Mathlib.Data.List.Infix
import Mathlib.Logic.Function.Basic

/-! Tables of tables. An entry is empty, a leaf, or the name of a further table, and a key leads
from the root through one entry of each table. A directory is the abstract side, indexed by paths;
a memory holds it when each table it names stands in the memory, and no two are the same. -/

namespace MiniEuler.Library

inductive Entry (τ ω : Type)
  | fault
  | table (t : τ)
  | leaf (w : ω)

/-- The entry at each path, where a path is written from the entry up to the root, so that the
tail of a path is the table the entry stands in. -/
structure Directory (ι τ ω : Type) where
  entry : List ι → Entry τ ω
  live : ∀ d p, entry (d :: p) ≠ .fault → ∃ t, entry p = .table t

variable {ι τ ω : Type}

/-- The path along the digits of a key. -/
def pathTo (key : Nat → ι) : Nat → List ι
  | 0 => []
  | n + 1 => key n :: pathTo key n

theorem pathTo_succ (key : Nat → ι) (n : Nat) : pathTo key (n + 1) = key n :: pathTo key n := rfl

section
variable {key key' : Nat → ι}

@[simp] theorem length_pathTo (n : Nat) : (pathTo key n).length = n := by
  induction n with
  | zero => rfl
  | succ n ih => simp [pathTo, ih]

theorem pathTo_suffix {n m : Nat} (h : n ≤ m) : pathTo key n <:+ pathTo key m := by
  induction h with
  | refl => exact List.suffix_refl _
  | step _ ih => exact ih.trans (List.suffix_cons _ _)

theorem pathTo_ne {n m : Nat} (h : n ≠ m) : pathTo key n ≠ pathTo key' m := fun heq => by
  have hlen := congrArg List.length heq
  rw [length_pathTo, length_pathTo] at hlen
  exact h hlen

theorem pathTo_suffix_iff {n m : Nat} :
    pathTo key n <:+ pathTo key' m ↔ n ≤ m ∧ pathTo key n = pathTo key' n := by
  constructor
  · intro h
    have hle : n ≤ m := by simpa using h.length_le
    refine ⟨hle, ?_⟩
    exact (List.suffix_of_suffix_length_le h (pathTo_suffix hle) (by simp)).eq_of_length (by simp)
  · rintro ⟨hle, heq⟩
    rw [heq]
    exact pathTo_suffix hle

end

namespace Directory

variable (D : Directory ι τ ω)

/-- The directory of an empty root table. -/
def new (t : τ) : Directory ι τ ω where
  entry := fun p => match p with
    | [] => .table t
    | _ :: _ => .fault
  live := fun _ _ h => absurd rfl h

variable {D} in
/-- What is on the way to an entry that is not empty is a table. -/
theorem table_of_suffix {p q : List ι} (hq : D.entry q ≠ .fault) (hp : p <:+ q) (hne : p ≠ q) :
    ∃ t, D.entry p = .table t := by
  induction q with
  | nil => exact absurd (List.suffix_nil.mp hp) hne
  | cons d q ih =>
    obtain ⟨t, ht⟩ := D.live d q hq
    rcases List.suffix_cons_iff.mp hp with h | h
    · exact absurd h hne
    · by_cases hpq : p = q
      · exact ⟨t, hpq ▸ ht⟩
      · exact ih (by rw [ht]; simp) h hpq

variable {D} in
theorem table_of_pathTo {key : Nat → ι} {n m : Nat} (hm : D.entry (pathTo key m) ≠ .fault)
    (h : n < m) : ∃ t, D.entry (pathTo key n) = .table t :=
  table_of_suffix hm (pathTo_suffix (Nat.le_of_lt h)) (pathTo_ne (Nat.ne_of_lt h))

section set
variable [DecidableEq ι]

/-- A new entry. What was under the old one is no longer there. -/
def set (d : ι) (p : List ι) (e : Entry τ ω) (h : ∃ t, D.entry p = .table t) :
    Directory ι τ ω where
  entry := fun q => if q = d :: p then e else if d :: p <:+ q then .fault else D.entry q
  live := by
    intro d' p' hne
    have hp : ¬ d :: p <:+ p := fun h => absurd h.length_le (by simp)
    by_cases heq : d' :: p' = d :: p
    · obtain ⟨rfl, rfl⟩ := List.cons.inj heq
      rw [if_neg (by simp), if_neg hp]
      exact h
    · rw [if_neg heq] at hne
      by_cases hsuf : d :: p <:+ d' :: p'
      · rw [if_pos hsuf] at hne
        exact absurd rfl hne
      · rw [if_neg hsuf] at hne
        have hsuf' : ¬ d :: p <:+ p' := fun h => hsuf (h.trans (List.suffix_cons _ _))
        rw [if_neg fun h => hsuf' (by rw [h]), if_neg hsuf']
        exact D.live d' p' hne

variable {D} {d : ι} {p : List ι} {e : Entry τ ω} {h : ∃ t, D.entry p = .table t}

@[simp] theorem entry_set_self : (D.set d p e h).entry (d :: p) = e := if_pos rfl

theorem entry_set_under {q : List ι} (hq : d :: p <:+ q) (hne : q ≠ d :: p) :
    (D.set d p e h).entry q = .fault := by
  simp [set, hne, hq]

theorem entry_set_other {q : List ι} (hq : ¬ d :: p <:+ q) :
    (D.set d p e h).entry q = D.entry q := by
  have hne : q ≠ d :: p := fun h => hq (h ▸ List.suffix_refl _)
  simp [set, hne, hq]

/-- Where there was nothing, nothing was under it. -/
theorem entry_set_of_fault (hf : D.entry (d :: p) = .fault) {q : List ι} (hne : q ≠ d :: p) :
    (D.set d p e h).entry q = D.entry q := by
  by_cases hq : d :: p <:+ q
  · rw [entry_set_under hq hne]
    by_contra hcon
    obtain ⟨t, ht⟩ := table_of_suffix (D := D) (Ne.symm hcon) hq (Ne.symm hne)
    rw [hf] at ht
    cases ht
  · exact entry_set_other hq

/-- A table after the change is the new entry, or was there and is not under it. -/
theorem table_of_entry_set {q : List ι} {t : τ} (hq : (D.set d p e h).entry q = .table t) :
    (q = d :: p ∧ e = .table t) ∨ (q ≠ d :: p ∧ ¬ d :: p <:+ q ∧ D.entry q = .table t) := by
  by_cases heq : q = d :: p
  · subst heq
    rw [entry_set_self] at hq
    exact Or.inl ⟨rfl, hq⟩
  · by_cases hsuf : d :: p <:+ q
    · rw [entry_set_under hsuf heq] at hq
      cases hq
    · rw [entry_set_other hsuf] at hq
      exact Or.inr ⟨heq, hsuf, hq⟩

theorem leaf_of_entry_set {q : List ι} {w : ω} (hq : (D.set d p e h).entry q = .leaf w) :
    (q = d :: p ∧ e = .leaf w) ∨ D.entry q = .leaf w := by
  by_cases heq : q = d :: p
  · subst heq
    rw [entry_set_self] at hq
    exact Or.inl ⟨rfl, hq⟩
  · by_cases hsuf : d :: p <:+ q
    · rw [entry_set_under hsuf heq] at hq
      cases hq
    · rw [entry_set_other hsuf] at hq
      exact Or.inr hq

end set

end Directory

/-! ## Directories filled with leaves -/

/-- No path of `done` is on the way to `p`, and `p` is on the way to none. -/
def Clear (p : List ι) (done : List (List ι × ω)) : Prop :=
  ∀ u ∈ done, ¬ u.1 <:+ p ∧ ¬ p <:+ u.1

/-- The leaves of the directory are those of `done`, and each of its tables is on the way to one
of them or to the table at `way`. -/
structure Filled (D : Directory ι τ ω) (done : List (List ι × ω)) (way : List ι) : Prop where
  leaf_iff : ∀ p w, D.entry p = .leaf w ↔ (p, w) ∈ done
  table : ∀ p t, D.entry p = .table t → p <:+ way ∨ ∃ u ∈ done, p <:+ u.1

namespace Filled

variable {D : Directory ι τ ω} {done : List (List ι × ω)} {way : List ι} {d : ι}

theorem new (t : τ) : Filled (Directory.new t : Directory ι τ ω) [] [] where
  leaf_iff := fun p w => by cases p <;> simp [Directory.new]
  table := fun p t' h => by
    cases p with
    | nil => exact Or.inl (List.suffix_refl _)
    | cons d p => cases h

theorem start (F : Filled D done []) (way : List ι) : Filled D done way where
  leaf_iff := F.leaf_iff
  table := fun p t h => (F.table p t h).imp_left fun h => by
    rw [List.suffix_nil.mp h]
    exact List.nil_suffix

/-- The place of a new leaf is empty. -/
theorem entry_fault (F : Filled D done way) (hc : Clear (d :: way) done) :
    D.entry (d :: way) = .fault := by
  cases he : D.entry (d :: way) with
  | fault => rfl
  | leaf w => exact absurd (List.suffix_refl _) (hc _ ((F.leaf_iff _ w).mp he)).1
  | table t =>
    rcases F.table _ t he with h | ⟨u, hu, h⟩
    · exact absurd h.length_le (by simp)
    · exact absurd h (hc u hu).2

/-- On the way to a new leaf there is no leaf. -/
theorem entry_ne_leaf (F : Filled D done way) (hc : Clear (d :: way) done) {p : List ι}
    (hp : p <:+ way) (w : ω) : D.entry p ≠ .leaf w :=
  fun he => (hc _ ((F.leaf_iff p w).mp he)).1 (hp.trans (List.suffix_cons _ _))

variable [DecidableEq ι] {p : List ι}

/-- A table is made on the way. -/
theorem descend (F : Filled D done way) (hp : d :: p <:+ way) (hf : D.entry (d :: p) = .fault)
    (h : ∃ t, D.entry p = .table t) (t : τ) : Filled (D.set d p (.table t) h) done way where
  leaf_iff := fun q w => by
    by_cases hq : q = d :: p
    · subst hq
      rw [Directory.entry_set_self, ← F.leaf_iff, hf]
      simp
    · rw [Directory.entry_set_of_fault hf hq]
      exact F.leaf_iff q w
  table := fun q t' hq => by
    by_cases heq : q = d :: p
    · exact Or.inl (heq ▸ hp)
    · rw [Directory.entry_set_of_fault hf heq] at hq
      exact F.table q t' hq

/-- The leaf is placed. -/
theorem place (F : Filled D done way) (hc : Clear (d :: way) done)
    (h : ∃ t, D.entry way = .table t) (w : ω) :
    Filled (D.set d way (.leaf w) h) (done ++ [(d :: way, w)]) [] where
  leaf_iff := fun q w' => by
    have hf := F.entry_fault hc
    rw [List.mem_append, List.mem_singleton, Prod.mk.injEq]
    by_cases hq : q = d :: way
    · subst hq
      rw [Directory.entry_set_self, ← F.leaf_iff, hf]
      simp [eq_comm]
    · rw [Directory.entry_set_of_fault hf hq, F.leaf_iff]
      simp [hq]
  table := fun q t hq => by
    have hf := F.entry_fault hc
    by_cases heq : q = d :: way
    · subst heq
      rw [Directory.entry_set_self] at hq
      cases hq
    · rw [Directory.entry_set_of_fault hf heq] at hq
      rcases F.table q t hq with h | ⟨u, hu, h⟩
      · exact Or.inr ⟨(d :: way, w), by simp, h.trans (List.suffix_cons _ _)⟩
      · exact Or.inr ⟨u, by simp [hu], h⟩

end Filled

/-! ## The tables that leaves need -/

/-- The tables of the directory are at `ps`. -/
def TablesAt (D : Directory ι τ ω) (ps : Finset (List ι)) : Prop :=
  ∀ p, p ∈ ps ↔ ∃ t, D.entry p = .table t

/-- The root, and what is on the way to a leaf. -/
def tablePaths [DecidableEq ι] (units : List (List ι × ω)) : Finset (List ι) :=
  insert [] (units.flatMap fun u => u.1.tails.tail).toFinset

theorem mem_tails_tail {p q : List ι} : p ∈ q.tails.tail ↔ p <:+ q ∧ p ≠ q := by
  cases q with
  | nil => simp
  | cons d q =>
    rw [List.tails_cons, List.tail_cons, List.mem_tails, List.suffix_cons_iff]
    constructor
    · intro h
      exact ⟨Or.inr h, fun heq => absurd h.length_le (by simp [heq])⟩
    · rintro ⟨h | h, hne⟩
      · exact absurd h hne
      · exact h

theorem TablesAt.new (t : τ) : TablesAt (Directory.new t : Directory ι τ ω) {[]} := by
  intro p
  cases p with
  | nil => simp [Directory.new]
  | cons d p => simp [Directory.new]

section tables
variable [DecidableEq ι] {units units' : List (List ι × ω)} {p : List ι}

theorem mem_tablePaths : p ∈ tablePaths units ↔ p = [] ∨ ∃ u ∈ units, p <:+ u.1 ∧ p ≠ u.1 := by
  simp [tablePaths, mem_tails_tail]

theorem tablePaths_mono (h : units ⊆ units') : tablePaths units ⊆ tablePaths units' := by
  intro p hp
  rw [mem_tablePaths] at hp ⊢
  exact hp.imp_right fun ⟨u, hu, hsuf⟩ => ⟨u, h hu, hsuf⟩

variable {D : Directory ι τ ω} {ps : Finset (List ι)} {d : ι} {t : τ} {w : ω}

/-- A table is linked in where there was nothing. -/
theorem TablesAt.table (T : TablesAt D ps) (hf : D.entry (d :: p) = .fault)
    (h : ∃ t, D.entry p = .table t) :
    d :: p ∉ ps ∧ TablesAt (D.set d p (.table t) h) (insert (d :: p) ps) := by
  refine ⟨fun hmem => ?_, fun q => ?_⟩
  · obtain ⟨t', ht'⟩ := (T _).mp hmem
    rw [hf] at ht'
    cases ht'
  · rw [Finset.mem_insert, T q]
    by_cases hq : q = d :: p
    · subst hq
      simp
    · rw [Directory.entry_set_of_fault hf hq]
      simp [hq]

/-- A leaf is placed where there was nothing. -/
theorem TablesAt.leaf (T : TablesAt D ps) (hf : D.entry (d :: p) = .fault)
    (h : ∃ t, D.entry p = .table t) : TablesAt (D.set d p (.leaf w) h) ps := by
  intro q
  rw [T q]
  by_cases hq : q = d :: p
  · subst hq
    simp [hf]
  · rw [Directory.entry_set_of_fault hf hq]

/-- **The tables of a filled directory** are those that its leaves need. -/
theorem Filled.tables_eq (F : Filled D units []) (hroot : ∃ t, D.entry [] = .table t)
    (T : TablesAt D ps) : ps = tablePaths units := by
  ext p
  rw [T p, mem_tablePaths]
  constructor
  · rintro ⟨t, ht⟩
    refine (F.table p t ht).imp List.suffix_nil.mp fun ⟨u, hu, h⟩ => ⟨u, hu, h, fun heq => ?_⟩
    have hleaf := (F.leaf_iff u.1 u.2).mpr hu
    rw [← heq, ht] at hleaf
    cases hleaf
  · rintro (rfl | ⟨u, hu, h, hne⟩)
    · exact hroot
    · have hleaf := (F.leaf_iff u.1 u.2).mpr hu
      exact Directory.table_of_suffix (by rw [hleaf]; simp) h hne

/-- The tables so far, and a further one on the way, are among those that are needed. -/
theorem Filled.insert_subset {done : List (List ι × ω)} {way : List ι} (F : Filled D done way)
    (T : TablesAt D ps) (hp : p <:+ way) :
    insert p ps ⊆ tablePaths (done ++ [(d :: way, w)]) := by
  have hway : ∀ q, q <:+ way → q ∈ tablePaths (done ++ [(d :: way, w)]) := fun q hq => by
    refine mem_tablePaths.mpr (Or.inr ⟨(d :: way, w), by simp, hq.trans (List.suffix_cons _ _), ?_⟩)
    intro heq
    exact absurd hq.length_le (by simp [heq])
  intro q hq
  rcases Finset.mem_insert.mp hq with rfl | hq
  · exact hway q hp
  · obtain ⟨t, ht⟩ := (T q).mp hq
    rcases F.table q t ht with h | ⟨u, hu, h⟩
    · exact hway q h
    · refine mem_tablePaths.mpr (Or.inr ⟨u, by simp [hu], h, fun heq => ?_⟩)
      have hleaf := (F.leaf_iff u.1 u.2).mpr hu
      rw [← heq, ht] at hleaf
      cases hleaf

end tables

/-! ## Directories in a memory -/

/-- How tables stand in a memory: where the entries of a table are, and how an entry is written.
The entries of two proper tables are at different places. -/
structure TableLayout (ι τ ω A W : Type) where
  slot : τ → ι → A
  enc : Entry τ ω → W
  Proper : τ → Prop
  slot_inj : ∀ t t' d d', Proper t → Proper t' → slot t d = slot t' d' → t = t' ∧ d = d'

/-- The memory holds the directory. -/
structure Holds {A W : Type} (Y : TableLayout ι τ ω A W) (mem : A → W) (D : Directory ι τ ω) :
    Prop where
  read : ∀ p t d, D.entry p = .table t → mem (Y.slot t d) = Y.enc (D.entry (d :: p))
  proper : ∀ p t, D.entry p = .table t → Y.Proper t
  unique : ∀ p q t, D.entry p = .table t → D.entry q = .table t → p = q

/-- A table that can be linked in: proper, not in use, and empty. -/
structure Unlinked {A W : Type} (Y : TableLayout ι τ ω A W) (mem : A → W) (D : Directory ι τ ω)
    (t : τ) : Prop where
  proper : Y.Proper t
  unused : ∀ p, D.entry p ≠ .table t
  empty : ∀ d, mem (Y.slot t d) = Y.enc .fault

namespace Holds

variable {A W : Type} {Y : TableLayout ι τ ω A W} {mem mem' : A → W} {D : Directory ι τ ω}

/-- **Frame rule.** -/
theorem frame (H : Holds Y mem D)
    (h : ∀ p t d, D.entry p = .table t → mem' (Y.slot t d) = mem (Y.slot t d)) :
    Holds Y mem' D where
  read := fun p t d hp => (h p t d hp).trans (H.read p t d hp)
  proper := H.proper
  unique := H.unique

theorem new {t : τ} (hp : Y.Proper t) (he : ∀ d, mem (Y.slot t d) = Y.enc .fault) :
    Holds Y mem (Directory.new t) where
  read := fun p t' d h => by
    cases p with
    | nil =>
      obtain rfl := Entry.table.inj h
      exact he d
    | cons d' p => cases h
  proper := fun p t' h => by
    cases p with
    | nil =>
      obtain rfl := Entry.table.inj h
      exact hp
    | cons d p => cases h
  unique := fun p q t' h h' => by
    cases p with
    | cons d p => cases h
    | nil =>
      cases q with
      | cons d q => cases h'
      | nil => rfl

variable [DecidableEq ι] [DecidableEq A] {d : ι} {p : List ι} {t : τ} {e : Entry τ ω}

/-- **Write rule.** The write of an entry sets it in the directory; a table that is linked in has
to be unlinked before. -/
theorem write (H : Holds Y mem D) (hp : D.entry p = .table t)
    (he : ∀ t', e = .table t' → Unlinked Y mem D t') :
    Holds Y (Function.update mem (Y.slot t d) (Y.enc e)) (D.set d p e ⟨t, hp⟩) := by
  refine ⟨fun q s d' hq => ?_, fun q s hq => ?_, fun q r s hq hr => ?_⟩
  · rcases Directory.table_of_entry_set hq with ⟨rfl, rfl⟩ | ⟨hqp, hsuf, hqs⟩
    · -- the table just linked in is empty
      have U := he s rfl
      have hne : Y.slot s d' ≠ Y.slot t d := fun h => by
        obtain ⟨rfl, -⟩ := Y.slot_inj _ _ _ _ U.proper (H.proper p t hp) h
        exact U.unused p hp
      rw [Function.update_of_ne hne, U.empty,
        Directory.entry_set_under (List.suffix_cons _ _) (by simp)]
    · by_cases hslot : Y.slot s d' = Y.slot t d
      · obtain ⟨rfl, rfl⟩ := Y.slot_inj _ _ _ _ (H.proper q s hqs) (H.proper p t hp) hslot
        obtain rfl := H.unique q p s hqs hp
        rw [Function.update_self, Directory.entry_set_self]
      · rw [Function.update_of_ne hslot, H.read q s d' hqs, Directory.entry_set_other]
        intro h
        rcases List.suffix_cons_iff.mp h with h | h
        · obtain ⟨rfl, rfl⟩ := List.cons.inj h
          rw [hp] at hqs
          obtain rfl := Entry.table.inj hqs
          exact hslot rfl
        · exact hsuf h
  · rcases Directory.table_of_entry_set hq with ⟨rfl, rfl⟩ | ⟨-, -, hqs⟩
    · exact (he s rfl).proper
    · exact H.proper q s hqs
  · rcases Directory.table_of_entry_set hq with ⟨rfl, rfl⟩ | ⟨-, -, hqs⟩
    · rcases Directory.table_of_entry_set hr with ⟨rfl, -⟩ | ⟨-, -, hrs⟩
      · rfl
      · exact absurd hrs ((he s rfl).unused r)
    · rcases Directory.table_of_entry_set hr with ⟨rfl, rfl⟩ | ⟨-, -, hrs⟩
      · exact absurd hqs ((he s rfl).unused q)
      · exact H.unique q r s hqs hrs

end Holds

end MiniEuler.Library
