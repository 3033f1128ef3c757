import MiniEuler.Library.Rings
import MiniEuler.Kernel.State

/-! The intrusive lists of `prt_list_external.h`: a heap of `TagListObject`s at
their addresses, and the inline functions on it. The kernel state links its
blocks through `NodeLists`; here the pointer updates are shown to be the
operations on those lists. -/

namespace MiniEuler
open Library

@[ext] structure TagListObject where
  prev : UIntPtr
  next : UIntPtr
  deriving DecidableEq, Repr

abbrev ListHeap := UIntPtr → TagListObject

namespace ListHeap

/-- `object->next = value` -/
def setNext (m : ListHeap) (object value : UIntPtr) : ListHeap :=
  Function.update m object { m object with next := value }

/-- `object->prev = value` -/
def setPrev (m : ListHeap) (object value : UIntPtr) : ListHeap :=
  Function.update m object { m object with prev := value }

def links (m : ListHeap) : Links UIntPtr := ⟨fun a => (m a).next, fun a => (m a).prev⟩

variable (m : ListHeap) (object value : UIntPtr)

@[simp] theorem links_setNext : (m.setNext object value).links =
    { m.links with next := Function.update m.links.next object value } := by
  ext a
  · by_cases h : a = object
    · subst h; simp [links, setNext]
    · simp [links, setNext, h]
  · by_cases h : a = object
    · subst h; simp [links, setNext]
    · simp [links, setNext, h]

@[simp] theorem links_setPrev : (m.setPrev object value).links =
    { m.links with prev := Function.update m.links.prev object value } := by
  ext a
  · by_cases h : a = object
    · subst h; simp [links, setPrev]
    · simp [links, setPrev, h]
  · by_cases h : a = object
    · subst h; simp [links, setPrev]
    · simp [links, setPrev, h]

end ListHeap

def listLowLevelAdd (m : ListHeap) (newNode prev next : UIntPtr) : ListHeap :=
  let m := m.setNext newNode next
  let m := m.setPrev newNode prev
  let m := m.setPrev next newNode
  m.setNext prev newNode

def listAdd (m : ListHeap) (newNode listObject : UIntPtr) : ListHeap :=
  listLowLevelAdd m newNode listObject (m listObject).next

def listTailAdd (m : ListHeap) (newNode listObject : UIntPtr) : ListHeap :=
  listLowLevelAdd m newNode (m listObject).prev listObject

def listLowLevelDelete (m : ListHeap) (prevNode nextNode : UIntPtr) : ListHeap :=
  let m := m.setPrev nextNode prevNode
  m.setNext prevNode nextNode

def listDelete (m : ListHeap) (node : UIntPtr) : ListHeap :=
  let m := listLowLevelDelete m (m node).prev (m node).next
  let m := m.setNext node 0
  m.setPrev node 0

def listEmpty (m : ListHeap) (listObject : UIntPtr) : Bool :=
  (m listObject).next = listObject && (m listObject).prev = listObject

/-- `field` is the offset of the link field in the block it belongs to. -/
def listComponent (ptrOfList field : UIntPtr) : UIntPtr := ptrOfList - field

/-- The rounds of `LIST_FOR_EACH` from the position `pos` on; `body` runs on data
that is not part of the list. -/
def listForEachFrom {σ : Type} (m : ListHeap) (listObject field : UIntPtr)
    (body : σ → UIntPtr → σ) : Nat → UIntPtr → σ → Option σ
  | 0, _, _ => none
  | fuel + 1, pos, s =>
    if pos + field ≠ listObject then
      listForEachFrom m listObject field body fuel (listComponent (m (pos + field)).next field)
        (body s pos)
    else some s

def listForEach {σ : Type} (m : ListHeap) (listObject field : UIntPtr) (body : σ → UIntPtr → σ)
    (fuel : Nat) (s : σ) : Option σ :=
  listForEachFrom m listObject field body fuel (listComponent (m listObject).next field) s

/-! ## The operations on the links -/

section
variable {m : ListHeap}

theorem links_listLowLevelAdd {newNode prev next : UIntPtr} (h : newNode ≠ next) :
    (listLowLevelAdd m newNode prev next).links = m.links.insert newNode prev next := by
  simp only [listLowLevelAdd, ListHeap.links_setNext, ListHeap.links_setPrev, Links.insert,
    Links.join]
  rw [Function.update_comm h]

theorem links_listDelete (node : UIntPtr) : (listDelete m node).links =
    (m.links.join (m.links.prev node) (m.links.next node)).clear node 0 := by
  simp only [listDelete, listLowLevelDelete, ListHeap.links_setNext, ListHeap.links_setPrev,
    Links.clear, Links.join]
  rfl

theorem listDelete_self (node : UIntPtr) : listDelete m node node = ⟨0, 0⟩ := by
  simp [listDelete, ListHeap.setPrev, ListHeap.setNext]

/-- The first node of a list is put back where it was. -/
theorem listAdd_listDelete {node listObject : UIntPtr} (hne : node ≠ listObject)
    (hnext : node ≠ (m node).next) (hfirst : m.links.Joined listObject node)
    (hjoined : m.links.Joined node (m node).next) :
    listAdd (listDelete m node) node listObject = m := by
  have hprev : m.links.prev node = listObject := hfirst.2
  have hafter : (listDelete m node listObject).next = (m node).next := by
    change (listDelete m node).links.next listObject = _
    simp [links_listDelete, Links.clear, Links.join, hprev, Ne.symm hne]
    rfl
  have hlinks : (listAdd (listDelete m node) node listObject).links = m.links := by
    rw [listAdd, hafter, links_listLowLevelAdd hnext, links_listDelete, hprev]
    exact Links.insert_clear_join hfirst hjoined hne hnext 0
  funext a
  have hn := congrArg (fun L => L.next a) hlinks
  have hp := congrArg (fun L => L.prev a) hlinks
  exact TagListObject.ext hp hn

theorem component_add_field (a field : UIntPtr) : listComponent a field + field = a := by
  rw [listComponent, BitVec.sub_add_cancel]

theorem listForEachFrom_eq_walk {σ : Type} (listObject field : UIntPtr)
    (body : σ → UIntPtr → σ) (fuel : Nat) (a : UIntPtr) (s : σ) :
    listForEachFrom m listObject field body fuel (listComponent a field) s =
      m.links.walk listObject (fun s n => body s (listComponent n field)) fuel s a := by
  induction fuel generalizing a s with
  | zero => rfl
  | succ fuel ih =>
    rw [listForEachFrom, Links.walk, component_add_field]
    by_cases h : a = listObject
    · simp [h]
    · simp only [ne_eq, h, not_false_eq_true, ↓reduceIte]
      exact ih (m a).next (body s (listComponent a field))

end

/-! ## Refinement -/

section
variable {Head : Type} [DecidableEq Head] {m : ListHeap} {head : Head → UIntPtr}
  {ls : NodeLists Head UIntPtr} {h : Head} {n : UIntPtr}

open Links

theorem listTailAdd_rings (R : Rings m.links head ls) (h : Head) (hn : Unlinked head ls n) :
    Rings (listTailAdd m n (head h)).links head (ls.tailAdd n h) := by
  have hl : ls h = ls h ++ [] := (List.append_nil _).symm
  obtain ⟨p, q, as, bs, c⟩ := Cut.exists_cut (hl ▸ (R.ring h).nodup)
  obtain ⟨-, hj, -⟩ := R.split hl c
  obtain ⟨rfl, rfl⟩ := List.cons.inj c.after
  have hne : n ≠ head h := fun e => hn h (by simp [e])
  rw [listTailAdd, links_listLowLevelAdd hne, show (m (head h)).prev = p from hj.2]
  exact R.insert hl c hn

theorem listAdd_rings (R : Rings m.links head ls) (h : Head) (hn : Unlinked head ls n) :
    Rings (listAdd m n (head h)).links head (ls.headAdd n h) := by
  have hl : ls h = [] ++ ls h := rfl
  obtain ⟨p, q, as, bs, c⟩ : ∃ p q as bs, Cut (head h) p q [] (ls h) as bs :=
    Cut.exists_cut (R.ring h).nodup
  obtain ⟨-, hj, -⟩ := R.split hl c
  have hp : head h = p := by
    have := c.before
    cases as with
    | nil => exact (List.cons.inj this).1
    | cons a as => simp at this
  have hne : n ≠ q := fun e => hn h (e ▸ (Rings.cut_mem hl c).2)
  rw [listAdd, hp, show (m p).next = q from hj.1, links_listLowLevelAdd hne]
  exact R.insert hl c hn

/-- `ListTailAdd` with a member for the list object links in front of that member. -/
theorem listTailAdd_member_rings (R : Rings m.links head ls) {cur : UIntPtr} (hc : cur ∈ ls h)
    (hn : Unlinked head ls n) :
    Rings (listTailAdd m n cur).links head
      (Function.update ls h (NodeLists.insertBefore n cur (ls h))) := by
  obtain ⟨xs, ys, hl, hx⟩ := List.eq_append_cons_of_mem hc
  obtain ⟨p, q, as, bs, c⟩ := Cut.exists_cut (hl ▸ (R.ring h).nodup)
  obtain ⟨-, hj, -⟩ := R.split hl c
  obtain ⟨rfl, rfl⟩ := List.cons.inj c.after
  have hne : n ≠ cur := fun e => hn h (by simp [e, hc])
  have hins : NodeLists.insertBefore n cur (ls h) = xs ++ n :: cur :: ys := by
    rw [hl]
    clear hl c hj
    induction xs with
    | nil => simp [NodeLists.insertBefore]
    | cons a xs ih =>
      obtain ⟨ha, hx⟩ := not_or.mp (List.mem_cons.not.mp hx)
      simp [NodeLists.insertBefore, Ne.symm ha, ih hx]
  rw [listTailAdd, links_listLowLevelAdd hne, show (m cur).prev = p from hj.2, hins]
  exact R.insert hl c hn

/-- Unlinking a member is `NodeLists.delete`, which needs no list argument. -/
theorem delete_eq_update (R : Rings m.links head ls) (hm : n ∈ ls h) :
    ls.delete n = Function.update ls h ((ls h).erase n) := by
  funext h'
  by_cases hh : h' = h
  · subst hh; simp
  · rw [Function.update_of_ne hh, NodeLists.delete_apply]
    refine List.erase_of_not_mem fun hm' => ?_
    exact R.apart h' h hh (List.mem_cons_of_mem _ hm') (List.mem_cons_of_mem _ hm)

theorem listDelete_rings (R : Rings m.links head ls) (hm : n ∈ ls h) :
    Rings (listDelete m n).links head (ls.delete n) ∧ Unlinked head (ls.delete n) n := by
  obtain ⟨xs, ys, hl, hx⟩ := List.eq_append_cons_of_mem hm
  have he : (ls h).erase n = xs ++ ys := by
    rw [hl, List.erase_append_right _ hx, List.erase_cons_head]
  rw [links_listDelete, delete_eq_update R hm, he]
  exact ⟨R.remove hl 0, R.unlinked_remove hl⟩

theorem listEmpty_iff (R : Rings m.links head ls) : listEmpty m (head h) = true ↔ ls h = [] := by
  rw [listEmpty, Bool.and_eq_true, decide_eq_true_eq, decide_eq_true_eq]
  refine ⟨fun he => R.next_eq_head_iff.mp he.1, fun he => ⟨R.next_eq_head_iff.mpr he, ?_⟩⟩
  have hpath := (R.ring h).path
  rw [he] at hpath
  exact (List.isChain_cons_cons.mp hpath).1.2

omit [DecidableEq Head] in
theorem listForEach_eq_foldl {σ : Type} (R : Rings m.links head ls) (field : UIntPtr)
    (body : σ → UIntPtr → σ) {fuel : Nat} (hf : (ls h).length < fuel) (s : σ) :
    listForEach m (head h) field body fuel s =
      some ((ls h).foldl (fun s n => body s (listComponent n field)) s) := by
  have hring := R.ring h
  rw [listForEach, listForEachFrom_eq_walk]
  exact hring.path.walk _ (List.nodup_cons.mp hring.nodup).1 hf s

/-- **The intrusive list refines sequences.** -/
theorem intrusive_list_refines (R : Rings m.links head ls) (h : Head) :
    (∀ n, Unlinked head ls n →
      Rings (listTailAdd m n (head h)).links head (Function.update ls h (ls h ++ [n])) ∧
      Rings (listAdd m n (head h)).links head (Function.update ls h (n :: ls h))) ∧
    (∀ n ∈ ls h,
      Rings (listDelete m n).links head (Function.update ls h ((ls h).erase n)) ∧
      Unlinked head (Function.update ls h ((ls h).erase n)) n ∧
      listDelete m n n = ⟨0, 0⟩) ∧
    (listEmpty m (head h) = true ↔ ls h = []) ∧
    ∀ (σ : Type) (field : UIntPtr) (body : σ → UIntPtr → σ) (fuel : Nat) (s : σ),
      (ls h).length < fuel → listForEach m (head h) field body fuel s =
        some ((ls h).foldl (fun s n => body s (listComponent n field)) s) := by
  refine ⟨fun n hn => ⟨listTailAdd_rings R h hn, listAdd_rings R h hn⟩, fun n hm => ?_,
    listEmpty_iff R, fun σ field body fuel s hf => listForEach_eq_foldl R field body hf s⟩
  obtain ⟨hR, hu⟩ := listDelete_rings R hm
  rw [delete_eq_update R hm] at hR hu
  exact ⟨hR, hu, listDelete_self n⟩

/-- A list with one member at 32 and an empty one, with heads at 16 and 64. -/
def twoRingsHeap : ListHeap := fun a =>
  if a = 16 then ⟨32, 32⟩ else if a = 32 then ⟨16, 16⟩ else ⟨a, a⟩

def twoRingsHead (b : Bool) : UIntPtr := if b then 16 else 64

def twoRingsLists (b : Bool) : List UIntPtr := if b then [32] else []

theorem twoRings : Rings twoRingsHeap.links twoRingsHead twoRingsLists := by
  refine ⟨fun b => ⟨?_, ?_⟩, ?_⟩
  · cases b
    · exact List.isChain_cons_cons.mpr ⟨⟨by decide, by decide⟩, .singleton _⟩
    · exact List.isChain_cons_cons.mpr ⟨⟨by decide, by decide⟩,
        List.isChain_cons_cons.mpr ⟨⟨by decide, by decide⟩, .singleton _⟩⟩
  · cases b <;> decide
  · intro b b' hb
    cases b <;> cases b' <;> simp [twoRingsHead, twoRingsLists] at hb ⊢

theorem intrusive_list_refines_twoRings :
    Rings (listDelete twoRingsHeap 32).links twoRingsHead
      (Function.update twoRingsLists true ((twoRingsLists true).erase 32)) ∧
    listEmpty twoRingsHeap (twoRingsHead true) = false ∧
    listForEach twoRingsHeap 16 8 (fun l a => l ++ [a]) 2 [] = some [24] := by
  have h := intrusive_list_refines twoRings true
  refine ⟨(h.2.1 32 (by decide)).1, ?_, h.2.2.2 _ 8 (fun l a => l ++ [a]) 2 [] (by decide)⟩
  exact Bool.eq_false_iff.mpr fun he => absurd (h.2.2.1.mp he) (by decide)

end

end MiniEuler
