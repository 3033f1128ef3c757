import Mathlib.Data.Nat.ModEq
import MiniEuler.Library.Run

/-! Buffers of `N` slots written and read in cyclic order. A history lists the
accesses, oldest first; writes stay less than `N` ahead of reads. -/

namespace MiniEuler.Library

variable {α : Type} {N : Nat}

inductive Access (α : Type) (N : Nat)
  | write (slot : Fin N) (item : α)
  | read (slot : Fin N) (item : α)

namespace Access

def slot : Access α N → Fin N
  | .write slot _ => slot
  | .read slot _ => slot

def written : Access α N → Option α
  | .write _ item => some item
  | .read _ _ => none

def taken : Access α N → Option α
  | .write _ _ => none
  | .read _ item => some item

end Access

/-- The items written, in order. -/
def itemsWritten (acc : List (Access α N)) : List α := acc.filterMap Access.written

/-- The items read, in order. -/
def itemsRead (acc : List (Access α N)) : List α := acc.filterMap Access.taken

/-- The last access to a slot. -/
def lastAt (slot : Fin N) (acc : List (Access α N)) : Option (Access α N) :=
  (acc.filter fun a => a.slot = slot).getLast?

/-- `Cyclic acc buf`: the accesses `acc` are in cyclic order and leave `buf`. -/
inductive Cyclic : List (Access α N) → Vector α N → Prop
  | new (buf : Vector α N) : Cyclic [] buf
  | write {acc buf} (slot : Fin N) (item : α) : Cyclic acc buf →
      (itemsWritten acc).length < (itemsRead acc).length + N →
      slot.val = (itemsWritten acc).length % N →
      Cyclic (acc ++ [.write slot item]) (buf.set slot item)
  | read {acc buf} (slot : Fin N) : Cyclic acc buf →
      (itemsRead acc).length < (itemsWritten acc).length →
      slot.val = (itemsRead acc).length % N →
      Cyclic (acc ++ [.read slot buf[slot]]) buf

/-- No item is written over before it is read. -/
def WritesFree (acc : List (Access α N)) : Prop :=
  Always (fun pre a => ∀ slot item, a = .write slot item →
    ∀ item', lastAt slot pre ≠ some (.write slot item')) acc

/-- Each read gets the item last written to the slot and not read since. -/
def ReadsWritten (acc : List (Access α N)) : Prop :=
  Always (fun pre a => ∀ slot item, a = .read slot item →
    lastAt slot pre = some (.write slot item)) acc

variable {acc : List (Access α N)} {buf : Vector α N}

@[simp] theorem itemsWritten_write (acc : List (Access α N)) (slot : Fin N) (item : α) :
    itemsWritten (acc ++ [.write slot item]) = itemsWritten acc ++ [item] := by
  simp [itemsWritten, Access.written]

@[simp] theorem itemsWritten_read (acc : List (Access α N)) (slot : Fin N) (item : α) :
    itemsWritten (acc ++ [.read slot item]) = itemsWritten acc := by
  simp [itemsWritten, Access.written]

@[simp] theorem itemsRead_write (acc : List (Access α N)) (slot : Fin N) (item : α) :
    itemsRead (acc ++ [.write slot item]) = itemsRead acc := by
  simp [itemsRead, Access.taken]

@[simp] theorem itemsRead_read (acc : List (Access α N)) (slot : Fin N) (item : α) :
    itemsRead (acc ++ [.read slot item]) = itemsRead acc ++ [item] := by
  simp [itemsRead, Access.taken]

theorem lastAt_append_self (acc : List (Access α N)) {a : Access α N} {slot : Fin N}
    (h : a.slot = slot) : lastAt slot (acc ++ [a]) = some a := by
  simp [lastAt, h]

theorem lastAt_append_other (acc : List (Access α N)) {a : Access α N} {slot : Fin N}
    (h : a.slot ≠ slot) : lastAt slot (acc ++ [a]) = lastAt slot acc := by
  simp [lastAt, h]

/-- Two numbers less than `N` apart fall on different slots. -/
theorem mod_ne_of_lt {j k : Nat} (h : j < k) (hk : k < j + N) : k % N ≠ j % N := by
  intro he
  have h0 := Nat.sub_mod_eq_zero_of_mod_eq he
  rw [Nat.mod_eq_of_lt (by omega)] at h0
  omega

/-- `item` has been written to `slot` and not been read. -/
def Live (acc : List (Access α N)) (slot : Fin N) (item : α) : Prop :=
  ∃ j, (itemsRead acc).length ≤ j ∧ (itemsWritten acc)[j]? = some item ∧ j % N = slot

theorem Cyclic.live_write {slot : Fin N} (item : α)
    (hroom : (itemsWritten acc).length < (itemsRead acc).length + N)
    (hslot : slot.val = (itemsWritten acc).length % N)
    (hle : (itemsRead acc).length ≤ (itemsWritten acc).length) (slot' : Fin N) (item' : α) :
    Live (acc ++ [.write slot item]) slot' item' ↔
      if slot = slot' then item = item' else Live acc slot' item' := by
  unfold Live
  rw [itemsRead_write, itemsWritten_write]
  constructor
  · rintro ⟨j, hj, hget, hmod⟩
    rcases lt_or_ge j (itemsWritten acc).length with hlt | hge
    · have hne : slot ≠ slot' := by
        rintro rfl
        exact mod_ne_of_lt hlt (by omega) (hslot.symm.trans hmod.symm)
      rw [if_neg hne]
      rw [List.getElem?_append_left hlt] at hget
      exact ⟨j, hj, hget, hmod⟩
    · rw [List.getElem?_append_right hge, List.getElem?_singleton] at hget
      split at hget
      · have hjw : j = (itemsWritten acc).length := by omega
        have he : slot = slot' := Fin.ext (by rw [hslot, ← hjw, hmod])
        rw [if_pos he]
        exact Option.some.inj hget
      · cases hget
  · split
    · rename_i he
      subst he
      rintro rfl
      exact ⟨(itemsWritten acc).length, hle, by simp, hslot.symm⟩
    · rintro ⟨j, hj, hget, hmod⟩
      obtain ⟨hlt, -⟩ := List.getElem?_eq_some_iff.mp hget
      exact ⟨j, hj, by rw [List.getElem?_append_left hlt]; exact hget, hmod⟩

theorem Cyclic.live_read {slot : Fin N} (item : α)
    (hroom : (itemsWritten acc).length ≤ (itemsRead acc).length + N)
    (hslot : slot.val = (itemsRead acc).length % N) (slot' : Fin N) (item' : α) :
    Live (acc ++ [.read slot item]) slot' item' ↔ slot ≠ slot' ∧ Live acc slot' item' := by
  unfold Live
  rw [itemsRead_read, itemsWritten_read, List.length_append, List.length_singleton]
  constructor
  · rintro ⟨j, hj, hget, hmod⟩
    obtain ⟨hlt, -⟩ := List.getElem?_eq_some_iff.mp hget
    refine ⟨?_, j, by omega, hget, hmod⟩
    rintro rfl
    exact mod_ne_of_lt (j := (itemsRead acc).length) (by omega) (by omega) (hmod.trans hslot)
  · rintro ⟨hne, j, hj, hget, hmod⟩
    refine ⟨j, ?_, hget, hmod⟩
    rcases Nat.eq_or_lt_of_le hj with rfl | hlt
    · exact absurd (Fin.ext (hslot.trans hmod)) hne
    · exact hlt

/-- What a cyclic history and its buffer tell about each other. -/
structure CyclicInv (acc : List (Access α N)) (buf : Vector α N) : Prop where
  le : (itemsRead acc).length ≤ (itemsWritten acc).length
  room : (itemsWritten acc).length ≤ (itemsRead acc).length + N
  last : ∀ slot item, lastAt slot acc = some (.write slot item) ↔ Live acc slot item
  stored : ∀ slot item, Live acc slot item → buf[slot] = item
  ordered : itemsRead acc <+: itemsWritten acc
  writesFree : WritesFree acc
  readsWritten : ReadsWritten acc

theorem CyclicInv.next (I : CyclicInv acc buf) {slot : Fin N}
    (hlt : (itemsRead acc).length < (itemsWritten acc).length)
    (hslot : slot.val = (itemsRead acc).length % N) :
    Live acc slot buf[slot] ∧ (itemsWritten acc)[(itemsRead acc).length]? = some buf[slot] := by
  have hget := List.getElem?_eq_getElem hlt
  have hlive : Live acc slot _ := ⟨_, le_rfl, hget, hslot.symm⟩
  rw [I.stored _ _ hlive]
  exact ⟨hlive, hget⟩

theorem CyclicInv.new (buf : Vector α N) : CyclicInv [] buf := by
  refine ⟨le_rfl, Nat.zero_le _, fun slot item => ?_, ?_, List.prefix_rfl, always_nil _,
    always_nil _⟩
  · simp [lastAt, Live, itemsWritten]
  · rintro slot item ⟨j, -, hget, -⟩
    simp [itemsWritten] at hget

theorem CyclicInv.write (I : CyclicInv acc buf) {slot : Fin N} {item : α}
    (hroom : (itemsWritten acc).length < (itemsRead acc).length + N)
    (hslot : slot.val = (itemsWritten acc).length % N) :
    CyclicInv (acc ++ [.write slot item]) (buf.set slot item) := by
  have hlive := Cyclic.live_write item hroom hslot I.le
  have hfree : ∀ item', ¬ Live acc slot item' := by
    rintro item' ⟨j, hj, hget, hmod⟩
    obtain ⟨hlt, -⟩ := List.getElem?_eq_some_iff.mp hget
    exact mod_ne_of_lt hlt (by omega) (hslot.symm.trans hmod.symm)
  refine ⟨?_, ?_, fun slot' item' => ?_, fun slot' item' h => ?_, ?_, ?_, ?_⟩
  · rw [itemsRead_write, itemsWritten_write, List.length_append]
    have := I.le
    omega
  · rw [itemsRead_write, itemsWritten_write, List.length_append, List.length_singleton]
    exact hroom
  · rw [hlive]
    split
    · rename_i he
      subst he
      rw [lastAt_append_self acc (show (Access.write slot item).slot = slot from rfl)]
      simp
    · rename_i hne
      rw [lastAt_append_other acc (show (Access.write slot item).slot ≠ slot' from hne)]
      exact I.last slot' item'
  · rw [hlive] at h
    split at h
    · rename_i he
      subst he
      simpa using h
    · rename_i hne
      have hne' : slot.val ≠ slot'.val := fun he => hne (Fin.ext he)
      have hold := I.stored slot' item' h
      simpa [Vector.getElem_set, hne'] using hold
  · rw [itemsRead_write, itemsWritten_write]
    exact I.ordered.trans (List.prefix_append _ _)
  · refine (always_snoc _ _ _).mpr ⟨I.writesFree, ?_⟩
    rintro slot' item' he item'' hlast
    obtain ⟨rfl, -⟩ := Access.write.inj he
    exact hfree item'' ((I.last _ _).mp hlast)
  · refine (always_snoc _ _ _).mpr ⟨I.readsWritten, ?_⟩
    rintro slot' item' he
    cases he

theorem CyclicInv.read (I : CyclicInv acc buf) {slot : Fin N}
    (hlt : (itemsRead acc).length < (itemsWritten acc).length)
    (hslot : slot.val = (itemsRead acc).length % N) :
    CyclicInv (acc ++ [.read slot buf[slot]]) buf := by
  have hlive := Cyclic.live_read buf[slot] I.room hslot
  obtain ⟨hnow, hget⟩ := I.next hlt hslot
  refine ⟨?_, ?_, fun slot' item' => ?_, fun slot' item' h => ?_, ?_, ?_, ?_⟩
  · rw [itemsRead_read, itemsWritten_read, List.length_append, List.length_singleton]
    exact hlt
  · rw [itemsRead_read, itemsWritten_read, List.length_append]
    have := I.room
    omega
  · rw [hlive]
    by_cases he : slot = slot'
    · subst he
      rw [lastAt_append_self acc (show (Access.read slot buf[slot]).slot = slot from rfl)]
      simp
    · rw [lastAt_append_other acc (show (Access.read slot buf[slot]).slot ≠ slot' from he)]
      simp only [ne_eq, he, not_false_eq_true, true_and]
      exact I.last slot' item'
  · exact I.stored slot' item' ((hlive slot' item').mp h).2
  · obtain ⟨rest, hrest⟩ := I.ordered
    rw [← hrest, List.getElem?_append_right le_rfl, Nat.sub_self] at hget
    cases rest with
    | nil => cases hget
    | cons item tail =>
      obtain rfl := Option.some.inj hget
      rw [itemsRead_read, itemsWritten_read, ← hrest]
      exact ⟨tail, by simp⟩
  · refine (always_snoc _ _ _).mpr ⟨I.writesFree, ?_⟩
    rintro slot' item' he
    cases he
  · refine (always_snoc _ _ _).mpr ⟨I.readsWritten, ?_⟩
    rintro slot' item' he
    obtain ⟨rfl, rfl⟩ := Access.read.inj he
    exact (I.last _ _).mpr hnow

/-- **Cyclic access is first in, first out**, and loses and doubles nothing. -/
theorem Cyclic.inv (H : Cyclic acc buf) : CyclicInv acc buf := by
  induction H with
  | new buf => exact .new buf
  | write slot item _ hroom hslot I => exact I.write hroom hslot
  | read slot _ hlt hslot I => exact I.read hlt hslot

/-! ## A writer that does not look at the reader -/

/-- The last `N` items of `l` are in their slots. -/
def StoredLast (l : List α) (buf : Vector α N) : Prop :=
  ∀ j item, l[j]? = some item → l.length ≤ j + N → ∀ slot : Fin N, slot.val = j % N →
    buf.get slot = item

theorem get_eq_getElem (buf : Vector α N) (slot : Fin N) : buf.get slot = buf[slot] := rfl

theorem StoredLast.nil (buf : Vector α N) : StoredLast [] buf := by
  intro j item h
  simp at h

theorem StoredLast.snoc {l : List α} (S : StoredLast l buf) (slot : Fin N)
    (hslot : slot.val = l.length % N) (item : α) :
    StoredLast (l ++ [item]) (buf.set slot item) := by
  intro j item' hget hlast slot' hslot'
  rw [List.length_append, List.length_singleton] at hlast
  rcases lt_or_ge j l.length with hlt | hge
  · have hne : slot.val ≠ slot'.val := by
      rw [hslot, hslot']
      exact mod_ne_of_lt hlt (by omega)
    rw [List.getElem?_append_left hlt] at hget
    have hold := S j item' hget (by omega) slot' hslot'
    simpa [get_eq_getElem, Vector.getElem_set, hne] using hold
  · rw [List.getElem?_append_right hge, List.getElem?_singleton] at hget
    split at hget
    · have hj : j = l.length := by omega
      have he : slot = slot' := Fin.ext (by rw [hslot, hslot', hj])
      subst he
      simpa [get_eq_getElem] using hget
    · cases hget

/-- The last of the first `n` items that goes to the slot of item `k`. -/
def lastInSlot (N k n : Nat) : Nat := k + N * ((n - 1 - k) / N)

theorem lastInSlot_spec {k n : Nat} (hN : 0 < N) (hk : k < n) :
    lastInSlot N k n < n ∧ n ≤ lastInSlot N k n + N ∧ lastInSlot N k n % N = k % N := by
  have hdiv := Nat.div_add_mod (n - 1 - k) N
  have hmod := Nat.mod_lt (n - 1 - k) hN
  refine ⟨?_, ?_, ?_⟩
  · unfold lastInSlot
    omega
  · unfold lastInSlot
    omega
  · rw [lastInSlot, Nat.add_mul_mod_self_left]

/-- As long as no more than `N` items are ahead of the reader, each is where it was put. -/
theorem lastInSlot_eq {k n : Nat} (hk : k < n) (h : n ≤ k + N) :
    lastInSlot N k n = k := by
  have hzero : (n - 1 - k) / N = 0 := Nat.div_eq_of_lt (by omega)
  rw [lastInSlot, hzero, Nat.mul_zero, Nat.add_zero]

/-- **The reader gets the item stored last into its slot.** -/
theorem StoredLast.read {l : List α} (S : StoredLast l buf) {k : Nat} (hk : k < l.length)
    {slot : Fin N} (hslot : slot.val = k % N) :
    l[lastInSlot N k l.length]? = some buf[slot] := by
  obtain ⟨hlt, hlast, hmod⟩ := lastInSlot_spec slot.pos hk
  have hget := List.getElem?_eq_getElem hlt
  rw [← get_eq_getElem, S _ _ hget hlast slot (by rw [hslot, hmod])]
  exact hget

end MiniEuler.Library
