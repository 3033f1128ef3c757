import Mathlib.Data.List.Chain
import MiniEuler.Library.NodeLists

/-! Circular doubly linked lists that share one pair of link fields per node.
`Rings` says that the links are those of a family of lists, each closed through
a head of its own; inserting between two neighbours and joining two nodes over a
third are then insertion into a list and removal from it. -/

set_option linter.unusedSectionVars false

namespace MiniEuler.Library

variable {Head Node : Type} [DecidableEq Head] [DecidableEq Node]

@[ext] structure Links (Node : Type) where
  next : Node → Node
  prev : Node → Node

namespace Links

/-- Make `q` the node after `p`. -/
def join (L : Links Node) (p q : Node) : Links Node where
  next := Function.update L.next p q
  prev := Function.update L.prev q p

/-- Put `n` between `p` and `q`. -/
def insert (L : Links Node) (n p q : Node) : Links Node := (L.join n q).join p n

/-- Set both fields of `n` to `null`. -/
def clear (L : Links Node) (n null : Node) : Links Node where
  next := Function.update L.next n null
  prev := Function.update L.prev n null

def Joined (L : Links Node) (p q : Node) : Prop := L.next p = q ∧ L.prev q = p

/-- Each node of the list is joined to the one after it. -/
abbrev Path (L : Links Node) (l : List Node) : Prop := l.IsChain L.Joined

variable {L L' : Links Node} {a p q n : Node} {l xs ys : List Node}

theorem joined_join : (L.join p q).Joined p q := by simp [Joined, join]

/-- A node that has been taken out and cleared is put back where it was. -/
theorem insert_clear_join (hp : L.Joined p n) (hq : L.Joined n q) (hnp : n ≠ p) (hnq : n ≠ q)
    (null : Node) : ((L.join p q).clear n null).insert n p q = L := by
  obtain ⟨hpn, hnp'⟩ := hp
  obtain ⟨hnq', hqn⟩ := hq
  have hnext : (((L.join p q).clear n null).insert n p q).next = L.next := by
    funext a
    by_cases ha : a = p
    · subst ha
      simp [insert, join, hpn]
    · by_cases hn : a = n
      · subst hn
        simp [insert, join, ha, hnq']
      · simp [insert, join, clear, ha, hn]
  have hprev : (((L.join p q).clear n null).insert n p q).prev = L.prev := by
    funext a
    by_cases hn : a = n
    · subst hn
      simp [insert, join, hnp']
    · by_cases ha : a = q
      · subst ha
        simp [insert, join, hn, hqn]
      · simp [insert, join, clear, ha, hn]
  exact Links.ext hnext hprev

/-! ## Paths -/

/-- A path depends on the `next` of all its nodes but the last, and on the
`prev` of all but the first. -/
theorem Path.congr (h : L.Path l) (hn : ∀ a ∈ l.dropLast, L'.next a = L.next a)
    (hp : ∀ a ∈ l.tail, L'.prev a = L.prev a) : L'.Path l := by
  induction l with
  | nil => exact .nil
  | cons a l ih =>
    cases l with
    | nil => exact .singleton a
    | cons b l =>
      obtain ⟨⟨hab, hba⟩, h⟩ := List.isChain_cons_cons.mp h
      have hl : L'.Path (b :: l) := by
        refine ih h (fun c hc => hn c ?_) (fun c hc => hp c ?_)
        · rw [List.dropLast_cons_of_ne_nil (List.cons_ne_nil b l)]
          exact List.mem_cons_of_mem a hc
        · exact List.mem_cons_of_mem b hc
      refine List.isChain_cons_cons.mpr ⟨⟨?_, ?_⟩, hl⟩
      · rw [hn a (by simp), hab]
      · rw [hp b (by simp), hba]

/-- Joining the end of one path to the start of another makes them one path. -/
theorem Path.join (hp : L.Path (xs ++ [p])) (hq : L.Path (q :: ys)) (hpx : p ∉ xs)
    (hpy : p ∉ (q :: ys).dropLast) (hqx : q ∉ (xs ++ [p]).tail) (hqy : q ∉ ys) :
    (L.join p q).Path (xs ++ p :: q :: ys) := by
  refine List.isChain_append_cons_cons.mpr ⟨?_, joined_join, ?_⟩
  · refine hp.congr (fun a ha => ?_) (fun a ha => ?_)
    · rw [List.dropLast_concat] at ha
      exact Function.update_of_ne (ne_of_mem_of_not_mem ha hpx) _ _
    · exact Function.update_of_ne (ne_of_mem_of_not_mem ha hqx) _ _
  · refine hq.congr (fun a ha => ?_) (fun a ha => ?_)
    · exact Function.update_of_ne (ne_of_mem_of_not_mem ha hpy) _ _
    · exact Function.update_of_ne (ne_of_mem_of_not_mem ha hqy) _ _

/-! ## Rings -/

/-- The list `l` closed through its head `a`. -/
structure Ring (L : Links Node) (a : Node) (l : List Node) : Prop where
  path : L.Path (a :: l ++ [a])
  nodup : (a :: l).Nodup

/-- The node before the rest `ys` of the ring. -/
theorem exists_concat (a : Node) (xs : List Node) : ∃ as p, a :: xs = as ++ [p] := by
  rcases List.eq_nil_or_concat (a :: xs) with h | ⟨as, p, h⟩
  · cases h
  · exact ⟨as, p, by rw [h, List.concat_eq_append]⟩

/-- The node after the part of the ring that ends with `ys`. -/
theorem exists_cons (ys : List Node) (a : Node) : ∃ q bs, ys ++ [a] = q :: bs := by
  cases ys with
  | nil => exact ⟨a, [], rfl⟩
  | cons y ys => exact ⟨y, ys ++ [a], rfl⟩

/-- A ring cut between `p` and `q`. -/
structure Cut (a p q : Node) (xs ys as bs : List Node) : Prop where
  before : a :: xs = as ++ [p]
  after : ys ++ [a] = q :: bs
  nodup : (a :: (xs ++ ys)).Nodup

namespace Cut

variable {as bs : List Node}

theorem exists_cut (h : (a :: (xs ++ ys)).Nodup) : ∃ p q as bs, Cut a p q xs ys as bs := by
  obtain ⟨as, p, hp⟩ := exists_concat a xs
  obtain ⟨q, bs, hq⟩ := exists_cons ys a
  exact ⟨p, q, as, bs, hp, hq, h⟩

theorem ring_eq (c : Cut a p q xs ys as bs) (l : List Node) :
    a :: (xs ++ l ++ ys) ++ [a] = as ++ p :: (l ++ q :: bs) := by
  have h : a :: (xs ++ l ++ ys) ++ [a] = (a :: xs) ++ l ++ (ys ++ [a]) := by simp
  rw [h, c.before, c.after]
  simp

theorem not_mem_before (c : Cut a p q xs ys as bs) : p ∉ as := by
  have h : (a :: xs).Nodup :=
    c.nodup.sublist (List.cons_sublist_cons.mpr (List.sublist_append_left xs ys))
  rw [c.before, List.nodup_append] at h
  exact fun hp => h.2.2 p hp p (by simp) rfl

theorem not_mem_after (c : Cut a p q xs ys as bs) : q ∉ bs := by
  have h : (a :: ys).Nodup :=
    c.nodup.sublist (List.cons_sublist_cons.mpr (List.sublist_append_right xs ys))
  have h' : (ys ++ [a]).Nodup := List.nodup_append_comm.mp h
  rw [c.after] at h'
  exact (List.nodup_cons.mp h').1

theorem before_not_mem (c : Cut a p q xs ys as bs) : p ∉ (q :: bs).dropLast := by
  have hd : (a :: xs).Disjoint ys := by
    have := c.nodup
    rw [← List.cons_append] at this
    exact List.disjoint_of_nodup_append this
  rw [← c.after, List.dropLast_concat]
  exact hd (by rw [c.before]; simp)

theorem after_not_mem (c : Cut a p q xs ys as bs) : q ∉ (as ++ [p]).tail := by
  have hd : (ys ++ [a]).Disjoint xs := by
    have h := c.nodup
    rw [List.nodup_cons, List.nodup_append] at h
    intro b hb hx
    rcases List.mem_append.mp hb with hy | ha
    · exact h.2.2.2 b hx b hy rfl
    · rw [List.mem_singleton.mp ha] at hx
      exact h.1 (List.mem_append_left ys hx)
  rw [← c.before, List.tail_cons]
  exact hd (by rw [c.after]; simp)

/-- Joining the two sides closes the ring over the cut. -/
theorem join (c : Cut a p q xs ys as bs) (hp : L.Path (as ++ [p])) (hq : L.Path (q :: bs)) :
    (L.join p q).Path (a :: (xs ++ ys) ++ [a]) := by
  have h := c.ring_eq []
  simp only [List.append_nil, List.nil_append] at h
  rw [h]
  exact hp.join hq c.not_mem_before c.before_not_mem c.after_not_mem c.not_mem_after

theorem insert (c : Cut a p q xs ys as bs) (hp : L.Path (as ++ [p])) (hq : L.Path (q :: bs))
    (hn : n ∉ a :: (xs ++ ys)) : (L.insert n p q).Path (a :: (xs ++ n :: ys) ++ [a]) := by
  have hmem : ∀ b, b ∈ as ++ [p] ∨ b ∈ q :: bs → b ∈ a :: (xs ++ ys) := by
    intro b hb
    rw [← c.before, ← c.after] at hb
    simp only [List.mem_cons, List.mem_append, List.not_mem_nil, or_false] at hb ⊢
    tauto
  have hnp : n ∉ as ++ [p] := fun h => hn (hmem n (Or.inl h))
  have hnq : n ∉ q :: bs := fun h => hn (hmem n (Or.inr h))
  -- first `n` in front of `q`, then `p` in front of `n`
  have h1 : (L.join n q).Path ([] ++ n :: q :: bs) :=
    Path.join (.singleton n) hq (by simp) (fun h => hnq (List.dropLast_subset _ h)) (by simp)
      c.not_mem_after
  have h2 : (L.join n q).Path (as ++ [p]) := by
    refine hp.congr (fun b hb => ?_) (fun b hb => ?_)
    · exact Function.update_of_ne (ne_of_mem_of_not_mem (List.dropLast_subset _ hb) hnp) _ _
    · exact Function.update_of_ne (ne_of_mem_of_not_mem hb c.after_not_mem) _ _
  have h3 := c.ring_eq [n]
  simp only [List.append_assoc, List.singleton_append] at h3
  rw [h3]
  refine h2.join h1 c.not_mem_before ?_ (fun h => hnp (List.mem_of_mem_tail h)) hnq
  rw [List.dropLast_cons_of_ne_nil (List.cons_ne_nil q bs)]
  refine List.not_mem_cons_of_ne_of_not_mem ?_ c.before_not_mem
  exact fun h => hnp (by simp [h])

end Cut

/-! ## Families of rings -/

/-- The links are those of the lists `ls`, each closed through its head, and no
node is on two of the rings. -/
structure Rings (L : Links Node) (head : Head → Node) (ls : NodeLists Head Node) : Prop where
  ring : ∀ h, L.Ring (head h) (ls h)
  apart : ∀ h h', h ≠ h' → (head h :: ls h).Disjoint (head h' :: ls h')

/-- `n` is on none of the rings. -/
def Unlinked (head : Head → Node) (ls : NodeLists Head Node) (n : Node) : Prop :=
  ∀ h, n ∉ head h :: ls h

namespace Rings

variable {head : Head → Node} {ls : NodeLists Head Node} {h : Head}

/-- **Frame.** A change of one ring that writes no node of another. -/
theorem update (R : Rings L head ls) (h : Head) {l : List Node} (hr : L'.Ring (head h) l)
    (hsub : ∀ h', h' ≠ h → (head h :: l).Disjoint (head h' :: ls h'))
    (hnext : ∀ h', h' ≠ h → ∀ a ∈ head h' :: ls h', L'.next a = L.next a)
    (hprev : ∀ h', h' ≠ h → ∀ a ∈ head h' :: ls h', L'.prev a = L.prev a) :
    Rings L' head (Function.update ls h l) := by
  refine ⟨fun h' => ?_, fun h₁ h₂ hne => ?_⟩
  · by_cases hh : h' = h
    · subst hh
      rwa [Function.update_self]
    · rw [Function.update_of_ne hh]
      have hring := R.ring h'
      refine ⟨hring.path.congr (fun a ha => hnext h' hh a ?_) (fun a ha => hprev h' hh a ?_),
        hring.nodup⟩
      · rwa [List.dropLast_concat] at ha
      · rw [List.cons_append, List.tail_cons, List.mem_append, List.mem_singleton] at ha
        exact List.mem_cons.mpr ha.symm
  · by_cases e₁ : h₁ = h
    · subst e₁
      rw [Function.update_self, Function.update_of_ne (Ne.symm hne)]
      exact hsub h₂ (Ne.symm hne)
    · by_cases e₂ : h₂ = h
      · subst e₂
        rw [Function.update_self, Function.update_of_ne hne]
        exact List.disjoint_symm (hsub h₁ hne)
      · rw [Function.update_of_ne e₁, Function.update_of_ne e₂]
        exact R.apart h₁ h₂ hne

variable {as bs : List Node} {null : Node}

/-- The two parts of a cut are paths, and its sides are joined. -/
theorem split (R : Rings L head ls) (hl : ls h = xs ++ ys) (c : Cut (head h) p q xs ys as bs) :
    L.Path (as ++ [p]) ∧ L.Joined p q ∧ L.Path (q :: bs) := by
  have hpath := (R.ring h).path
  have he := c.ring_eq []
  simp only [List.append_nil, List.nil_append] at he
  rw [hl, he] at hpath
  exact List.isChain_append_cons_cons.mp hpath

/-- A node of one ring is none of another. -/
theorem ne_of_apart (R : Rings L head ls) {h h' : Head} {a b : Node} (hne : h' ≠ h)
    (ha : a ∈ head h' :: ls h') (hb : b ∈ head h :: ls h) : a ≠ b :=
  fun e => R.apart h' h hne ha (e ▸ hb)

theorem cut_mem (hl : ls h = xs ++ ys) (c : Cut (head h) p q xs ys as bs) :
    p ∈ head h :: ls h ∧ q ∈ head h :: ls h := by
  have hp : p ∈ head h :: xs := by rw [c.before]; simp
  have hq : q ∈ ys ++ [head h] := by rw [c.after]; simp
  rw [hl]
  simp only [List.mem_cons, List.mem_append, List.not_mem_nil, or_false] at hp hq ⊢
  tauto

/-- **Insertion.** An unlinked node put into a cut is a member there, and the
other lists stay as they are. -/
theorem insert (R : Rings L head ls) (hl : ls h = xs ++ ys) (c : Cut (head h) p q xs ys as bs)
    (hn : Unlinked head ls n) :
    Rings (L.insert n p q) head (Function.update ls h (xs ++ n :: ys)) := by
  obtain ⟨hp, -, hq⟩ := R.split hl c
  obtain ⟨hpm, hqm⟩ := cut_mem hl c
  have hnl := hn h
  rw [hl] at hnl
  have hperm : (head h :: (xs ++ n :: ys)).Perm (n :: head h :: ls h) := by
    rw [hl]
    exact (List.perm_middle.cons _).trans (List.Perm.swap n _ _)
  refine R.update h ⟨c.insert hp hq hnl, ?_⟩ (fun h' hh => ?_) (fun h' hh a ha => ?_)
    (fun h' hh a ha => ?_)
  · exact hperm.nodup_iff.mpr (List.nodup_cons.mpr ⟨hn h, (R.ring h).nodup⟩)
  · intro a ha
    rcases List.mem_cons.mp (hperm.mem_iff.mp ha) with rfl | ha
    · exact hn h'
    · exact R.apart h h' (Ne.symm hh) ha
  · have h1 : a ≠ p := R.ne_of_apart hh ha hpm
    have h2 : a ≠ n := fun e => hn h' (e ▸ ha)
    simp [Links.insert, Links.join, h1, h2]
  · have h1 : a ≠ q := R.ne_of_apart hh ha hqm
    have h2 : a ≠ n := fun e => hn h' (e ▸ ha)
    simp [Links.insert, Links.join, h1, h2]

/-- The neighbours of a member, read off its own links. -/
theorem neighbours (R : Rings L head ls) (hl : ls h = xs ++ n :: ys) :
    ∃ as bs, Cut (head h) (L.prev n) (L.next n) xs ys as bs := by
  have hnd := (R.ring h).nodup
  rw [hl] at hnd
  have hsub : (head h :: (xs ++ ys)).Nodup :=
    hnd.sublist (((List.Sublist.refl xs).append (List.sublist_cons_self n ys)).cons_cons _)
  obtain ⟨p, q, as, bs, c⟩ := Cut.exists_cut hsub
  have hpath := (R.ring h).path
  have he := c.ring_eq [n]
  simp only [List.append_assoc, List.singleton_append] at he
  rw [hl, he] at hpath
  obtain ⟨-, hpn, hrest⟩ := List.isChain_append_cons_cons.mp hpath
  obtain ⟨hnq, -⟩ := List.isChain_cons_cons.mp hrest
  rw [hpn.2, hnq.1]
  exact ⟨as, bs, c⟩

/-- **Removal.** Joining the neighbours of a member takes it off its list, and
the other lists stay as they are. -/
theorem remove (R : Rings L head ls) (hl : ls h = xs ++ n :: ys) (null : Node) :
    Rings ((L.join (L.prev n) (L.next n)).clear n null) head
      (Function.update ls h (xs ++ ys)) := by
  obtain ⟨as, bs, c⟩ := R.neighbours hl
  have hnd := (R.ring h).nodup
  have hpath := (R.ring h).path
  have he := c.ring_eq [n]
  simp only [List.append_assoc, List.singleton_append] at he
  rw [hl, he] at hpath
  obtain ⟨hp, -, hrest⟩ := List.isChain_append_cons_cons.mp hpath
  obtain ⟨-, hq⟩ := List.isChain_cons_cons.mp hrest
  have hperm : (head h :: ls h).Perm (n :: head h :: (xs ++ ys)) := by
    rw [hl]
    exact (List.perm_middle.cons _).trans (List.Perm.swap n _ _)
  have hout : n ∉ head h :: (xs ++ ys) := (List.nodup_cons.mp (hperm.nodup_iff.mp hnd)).1
  have hmem : ∀ b ∈ head h :: (xs ++ ys), b ∈ head h :: ls h := fun b hb =>
    hperm.mem_iff.mpr (List.mem_cons_of_mem n hb)
  have hpm : L.prev n ∈ head h :: ls h := by
    have : L.prev n ∈ head h :: xs := by rw [c.before]; simp
    refine hmem _ ?_
    simp only [List.mem_cons, List.mem_append] at this ⊢
    tauto
  have hqm : L.next n ∈ head h :: ls h := by
    have : L.next n ∈ ys ++ [head h] := by rw [c.after]; simp
    refine hmem _ ?_
    simp only [List.mem_cons, List.mem_append, List.not_mem_nil, or_false] at this ⊢
    tauto
  have hnm : n ∈ head h :: ls h := hperm.mem_iff.mpr (by simp)
  refine R.update h ⟨?_, c.nodup⟩ (fun h' hh a ha => R.apart h h' (Ne.symm hh) (hmem a ha))
    (fun h' hh a ha => ?_) (fun h' hh a ha => ?_)
  · refine (c.join hp hq).congr (fun a ha => ?_) (fun a ha => ?_)
    · rw [List.dropLast_concat] at ha
      exact Function.update_of_ne (ne_of_mem_of_not_mem ha hout) _ _
    · rw [List.cons_append, List.tail_cons, List.mem_append, List.mem_singleton] at ha
      exact Function.update_of_ne (ne_of_mem_of_not_mem (List.mem_cons.mpr ha.symm) hout) _ _
  · have h1 : a ≠ L.prev n := R.ne_of_apart hh ha hpm
    have h2 : a ≠ n := R.ne_of_apart hh ha hnm
    simp [clear, Links.join, h1, h2]
  · have h1 : a ≠ L.next n := R.ne_of_apart hh ha hqm
    have h2 : a ≠ n := R.ne_of_apart hh ha hnm
    simp [clear, Links.join, h1, h2]

/-- What has been taken off its list is linked to nothing. -/
theorem unlinked_remove (R : Rings L head ls) (hl : ls h = xs ++ n :: ys) :
    Unlinked head (Function.update ls h (xs ++ ys)) n := by
  intro h'
  have hnd := (R.ring h).nodup
  have hperm : (head h :: ls h).Perm (n :: head h :: (xs ++ ys)) := by
    rw [hl]
    exact (List.perm_middle.cons _).trans (List.Perm.swap n _ _)
  by_cases hh : h' = h
  · subst hh
    rw [Function.update_self]
    exact (List.nodup_cons.mp (hperm.nodup_iff.mp hnd)).1
  · rw [Function.update_of_ne hh]
    exact fun hm => R.apart h' h hh hm (hperm.mem_iff.mpr (by simp))

/-- The head is joined to itself exactly when its list is empty. -/
theorem next_eq_head_iff (R : Rings L head ls) : L.next (head h) = head h ↔ ls h = [] := by
  have hring := R.ring h
  cases hl : ls h with
  | nil =>
    rw [hl] at hring
    simpa using (List.isChain_cons_cons.mp hring.path).1.1
  | cons a l =>
    rw [hl] at hring
    have hj := (List.isChain_cons_cons.mp hring.path).1.1
    have hne : a ≠ head h := fun e => (List.nodup_cons.mp hring.nodup).1 (by simp [e])
    simpa [hj] using hne

end Rings

/-! ## Walking along a ring -/

/-- The loop that follows `next` from `a` until it meets `stop`. -/
def walk {σ : Type} (L : Links Node) (stop : Node) (body : σ → Node → σ) :
    Nat → σ → Node → Option σ
  | 0, _, _ => none
  | fuel + 1, s, a => if a = stop then some s else walk L stop body fuel (body s a) (L.next a)

theorem Path.walk {σ : Type} {stop : Node} (body : σ → Node → σ) {l : List Node} {a : Node}
    (hpath : L.Path (a :: l ++ [stop])) (hstop : stop ∉ l) {fuel : Nat} (hf : l.length < fuel)
    (s : σ) : L.walk stop body fuel s (L.next a) = some (l.foldl body s) := by
  induction l generalizing a s fuel with
  | nil =>
    obtain ⟨fuel, rfl⟩ := Nat.exists_eq_add_of_lt hf
    have hj : L.next a = stop := (List.isChain_cons_cons.mp hpath).1.1
    simp [Links.walk, hj]
  | cons b l ih =>
    cases fuel with
    | zero => simp at hf
    | succ fuel =>
      obtain ⟨hj, hpath⟩ := List.isChain_cons_cons.mp hpath
      obtain ⟨hb, hstop⟩ := not_or.mp (List.mem_cons.not.mp hstop)
      rw [Links.walk, hj.1, if_neg (Ne.symm hb), List.foldl_cons]
      exact ih hpath hstop (by simpa using hf) (body s b)

/-- The loop that follows `next` from `a` and stops early at a node that `p` picks. -/
def seek (L : Links Node) (stop : Node) (p : Node → Bool) : Nat → Node → Option (Option Node)
  | 0, _ => none
  | fuel + 1, a =>
    if a = stop then some none else if p a then some (some a) else seek L stop p fuel (L.next a)

theorem Path.seek {stop : Node} (p : Node → Bool) {l : List Node} {a : Node}
    (hpath : L.Path (a :: l ++ [stop])) (hstop : stop ∉ l) {fuel : Nat} (hf : l.length < fuel) :
    L.seek stop p fuel (L.next a) = some (l.find? p) := by
  induction l generalizing a fuel with
  | nil =>
    obtain ⟨fuel, rfl⟩ := Nat.exists_eq_add_of_lt hf
    have hj : L.next a = stop := (List.isChain_cons_cons.mp hpath).1.1
    simp [Links.seek, hj]
  | cons b l ih =>
    cases fuel with
    | zero => simp at hf
    | succ fuel =>
      obtain ⟨hj, hpath⟩ := List.isChain_cons_cons.mp hpath
      obtain ⟨hb, hstop⟩ := not_or.mp (List.mem_cons.not.mp hstop)
      rw [Links.seek, hj.1, if_neg (Ne.symm hb), List.find?_cons]
      cases p b with
      | true => rfl
      | false => exact ih hpath hstop (by simpa using hf)

/-! ## The rings of some heads -/

/-- The links are those of the lists of the heads in `S`; the other heads have not been set
up. -/
def RingsOn (L : Links Node) (S : Head → Prop) (head : Head → Node) (ls : NodeLists Head Node) :
    Prop :=
  Rings L (fun h : {h // S h} => head h) fun h => ls h

/-- `n` is on no ring of a head in `S`. -/
def UnlinkedOn (S : Head → Prop) (head : Head → Node) (ls : NodeLists Head Node) (n : Node) :
    Prop :=
  ∀ h, S h → n ∉ head h :: ls h

namespace RingsOn

variable {S : Head → Prop} {head : Head → Node} {ls : NodeLists Head Node} {h : Head}

theorem update_eq (hS : S h) (l : List Node) :
    (fun h' : {h // S h} => Function.update ls h l h') =
      Function.update (fun h' : {h // S h} => ls h') ⟨h, hS⟩ l :=
  Function.update_comp_eq_of_injective ls Subtype.val_injective ⟨h, hS⟩ l

/-- **Frame.** Writes to nodes that are on no ring. -/
theorem congr (R : RingsOn L S head ls)
    (hL : ∀ h, S h → ∀ a ∈ head h :: ls h, L'.next a = L.next a ∧ L'.prev a = L.prev a) :
    RingsOn L' S head ls := by
  refine ⟨fun h => ⟨(R.ring h).path.congr (fun a ha => ?_) (fun a ha => ?_), (R.ring h).nodup⟩,
    R.apart⟩
  · rw [List.dropLast_concat] at ha
    exact (hL h h.2 a ha).1
  · rw [List.cons_append, List.tail_cons, List.mem_append, List.mem_singleton] at ha
    exact (hL h h.2 a (List.mem_cons.mpr ha.symm)).2

/-- Setting up one more head, which is joined to itself. -/
theorem extend (R : RingsOn L S head ls) (hself : L.Joined (head h) (head h))
    (hout : UnlinkedOn S head ls (head h)) :
    RingsOn L (fun h' => S h' ∨ h' = h) head (Function.update ls h []) := by
  have hS : ∀ h', S h' → h' ≠ h := by
    rintro h' hs rfl
    exact hout h' hs (by simp)
  refine ⟨fun ⟨h', hs⟩ => ?_, fun ⟨h₁, hs₁⟩ ⟨h₂, hs₂⟩ hne => ?_⟩
  · by_cases hh : h' = h
    · subst hh
      simp only [Function.update_self]
      exact ⟨List.isChain_cons_cons.mpr ⟨hself, .singleton _⟩, List.nodup_singleton _⟩
    · simp only [Function.update_of_ne hh]
      exact R.ring ⟨h', hs.resolve_right hh⟩
  · have h₁₂ : h₁ ≠ h₂ := fun e => hne (Subtype.ext e)
    by_cases e₁ : h₁ = h
    · have e₂ : h₂ ≠ h := fun e => h₁₂ (e₁.trans e.symm)
      have hd := List.singleton_disjoint.mpr (hout h₂ (hs₂.resolve_right e₂))
      simpa only [e₁, Function.update_self, Function.update_of_ne e₂] using hd
    · have R₁ := hs₁.resolve_right e₁
      by_cases e₂ : h₂ = h
      · have hd := List.disjoint_singleton.mpr (hout h₁ R₁)
        simpa only [e₂, Function.update_self, Function.update_of_ne e₁] using hd
      · simp only [Function.update_of_ne e₁, Function.update_of_ne e₂]
        exact R.apart ⟨h₁, R₁⟩ ⟨h₂, hs₂.resolve_right e₂⟩ fun e => h₁₂ (congrArg Subtype.val e)

end RingsOn

end Links

end MiniEuler.Library
