import Mathlib.Data.List.Basic

/-! Counting semaphores with direct hand-off: a posted unit goes to the task that
has waited longest, and to the count only when nobody waits. -/

namespace MiniEuler.Library

variable {T : Type}

structure HandOff (T : Type) where
  count : Nat
  queue : List T
  noWaste : queue = [] ∨ count = 0

namespace HandOff

def new (c : Nat) : HandOff T := ⟨c, [], Or.inl rfl⟩

/-- `t` takes a unit, or waits when there is none. -/
def pend (h : HandOff T) (t : T) : HandOff T :=
  if hc : h.count = 0 then ⟨0, h.queue ++ [t], Or.inr rfl⟩
  else ⟨h.count - 1, h.queue, Or.inl (h.noWaste.resolve_right hc)⟩

/-- A unit is handed to the first waiter, or added to the count. -/
def post (h : HandOff T) : HandOff T :=
  match hq : h.queue with
  | [] => ⟨h.count + 1, [], Or.inl rfl⟩
  | _ :: rest => ⟨h.count, rest, Or.inr (h.noWaste.resolve_left (by simp [hq]))⟩

/-- What happens at a semaphore. A post is made by a task or from outside, and
names the tasks it wakes. -/
inductive Event (T : Type)
  | took (t : T)
  | blocked (t : T)
  | posted (poster : Option T) (woken : List T)

@[ext] theorem ext_fields {h h' : HandOff T} (hc : h.count = h'.count)
    (hq : h.queue = h'.queue) : h = h' := by
  cases h
  cases h'
  simp_all

@[simp] theorem new_count (c : Nat) : (new c : HandOff T).count = c := rfl

@[simp] theorem new_queue (c : Nat) : (new c : HandOff T).queue = [] := rfl

theorem pend_of_pos {h : HandOff T} (t : T) (hc : 0 < h.count) :
    (h.pend t).count = h.count - 1 ∧ (h.pend t).queue = h.queue := by
  unfold pend
  rw [dif_neg (by omega)]
  exact ⟨rfl, rfl⟩

theorem pend_of_zero {h : HandOff T} (t : T) (hc : h.count = 0) :
    (h.pend t).count = 0 ∧ (h.pend t).queue = h.queue ++ [t] := by
  unfold pend
  rw [dif_pos hc]
  exact ⟨rfl, rfl⟩

theorem post_of_nil {h : HandOff T} (hq : h.queue = []) :
    h.post.count = h.count + 1 ∧ h.post.queue = [] := by
  unfold post
  split
  · exact ⟨rfl, rfl⟩
  · rename_i hq'
    rw [hq] at hq'
    cases hq'

theorem post_of_cons {h : HandOff T} {w : T} {rest : List T} (hq : h.queue = w :: rest) :
    h.post.count = h.count ∧ h.post.queue = rest := by
  unfold post
  split
  · rename_i hq'
    rw [hq] at hq'
    cases hq'
  · rename_i hq'
    rw [hq] at hq'
    exact ⟨rfl, (List.cons.inj hq').2.symm⟩

/-- A task that pends takes a unit or makes the queue longer. -/
theorem pend_balance (h : HandOff T) (t : T) :
    (h.pend t).count + 1 + h.queue.length = h.count + (h.pend t).queue.length := by
  rcases Nat.eq_zero_or_pos h.count with hc | hc
  · obtain ⟨hc', hq'⟩ := pend_of_zero t hc
    rw [hc', hq', List.length_append, List.length_singleton]
    omega
  · obtain ⟨hc', hq'⟩ := pend_of_pos t hc
    rw [hc', hq']
    omega

/-- A post adds a unit or makes the queue shorter. -/
theorem post_balance (h : HandOff T) :
    h.post.count + h.queue.length = h.count + h.post.queue.length + 1 := by
  cases hq : h.queue with
  | nil =>
    obtain ⟨hc', hq'⟩ := post_of_nil hq
    rw [hc', hq']
    rfl
  | cons w rest =>
    obtain ⟨hc', hq'⟩ := post_of_cons hq
    rw [hc', hq', List.length_cons]
    omega

theorem post_queue (h : HandOff T) : h.post.queue = h.queue.tail := by
  cases hq : h.queue with
  | nil => exact (post_of_nil hq).2
  | cons w rest => exact (post_of_cons hq).2

theorem mem_pend_queue {h : HandOff T} {t u : T} (hu : u ∈ (h.pend t).queue) :
    u ∈ h.queue ∨ u = t := by
  rcases Nat.eq_zero_or_pos h.count with hc | hc
  · rw [(pend_of_zero t hc).2] at hu
    simpa using hu
  · rw [(pend_of_pos t hc).2] at hu
    exact Or.inl hu

theorem pend_nodup {h : HandOff T} {t : T} (hn : h.queue.Nodup) (ht : t ∉ h.queue) :
    (h.pend t).queue.Nodup := by
  rcases Nat.eq_zero_or_pos h.count with hc | hc
  · rw [(pend_of_zero t hc).2]
    refine List.nodup_append.mpr ⟨hn, List.pairwise_singleton _ _, fun u hu v hv => ?_⟩
    rw [List.mem_singleton.mp hv]
    exact ne_of_mem_of_not_mem hu ht
  · rw [(pend_of_pos t hc).2]
    exact hn

/-- The same semaphore, its waiters named by `f`. -/
def map {U : Type} (f : T → U) (h : HandOff T) : HandOff U :=
  ⟨h.count, h.queue.map f, h.noWaste.imp (fun hq => by rw [hq, List.map_nil]) id⟩

section
variable {U : Type} (f : T → U) (h : HandOff T)

@[simp] theorem map_count : (h.map f).count = h.count := rfl

@[simp] theorem map_queue : (h.map f).queue = h.queue.map f := rfl

theorem map_pend (t : T) : (h.pend t).map f = (h.map f).pend (f t) := by
  rcases Nat.eq_zero_or_pos h.count with hc | hc
  · obtain ⟨hcount, hqueue⟩ := pend_of_zero t hc
    obtain ⟨hcount', hqueue'⟩ := pend_of_zero (h := h.map f) (f t) hc
    apply ext_fields
    · rw [map_count, hcount, hcount']
    · rw [map_queue, hqueue, hqueue', map_queue, List.map_append, List.map_singleton]
  · obtain ⟨hcount, hqueue⟩ := pend_of_pos t hc
    obtain ⟨hcount', hqueue'⟩ := pend_of_pos (h := h.map f) (f t) hc
    apply ext_fields
    · rw [map_count, hcount, hcount', map_count]
    · rw [map_queue, hqueue, hqueue', map_queue]

theorem map_post : h.post.map f = (h.map f).post := by
  cases hq : h.queue with
  | nil =>
    obtain ⟨hcount, hqueue⟩ := post_of_nil hq
    obtain ⟨hcount', hqueue'⟩ := post_of_nil (h := h.map f) (by rw [map_queue, hq, List.map_nil])
    apply ext_fields
    · rw [map_count, hcount, hcount', map_count]
    · rw [map_queue, hqueue, hqueue', List.map_nil]
  | cons w rest =>
    obtain ⟨hcount, hqueue⟩ := post_of_cons hq
    obtain ⟨hcount', hqueue'⟩ := post_of_cons (h := h.map f)
      (by rw [map_queue, hq, List.map_cons])
    apply ext_fields
    · rw [map_count, hcount, hcount', map_count]
    · rw [map_queue, hqueue, hqueue']

end

/-! ## Histories -/

/-- `Hist c evs h`: the events `evs` lead from a semaphore of `c` units to `h`. -/
inductive Hist (c : Nat) : List (Event T) → HandOff T → Prop
  | new : Hist c [] (new c)
  | took {evs h} (t : T) : Hist c evs h → 0 < h.count → Hist c (evs ++ [.took t]) (h.pend t)
  | blocked {evs h} (t : T) : Hist c evs h → h.count = 0 →
      Hist c (evs ++ [.blocked t]) (h.pend t)
  | posted {evs h} (poster : Option T) : Hist c evs h →
      Hist c (evs ++ [.posted poster h.queue.head?.toList]) h.post

namespace Event

/-- The tasks an event grants a unit to. -/
def granted : Event T → List T
  | .took t => [t]
  | .blocked _ => []
  | .posted _ woken => woken

def isPost : Event T → Bool
  | .posted _ _ => true
  | _ => false

def blockedTask : Event T → Option T
  | .blocked t => some t
  | _ => none

def wokenTasks : Event T → List T
  | .posted _ woken => woken
  | _ => []

def poster : Event T → Option T
  | .posted p _ => p
  | _ => none

end Event

/-- The tasks granted a unit, in order. -/
def grants (evs : List (Event T)) : List T := evs.flatMap Event.granted

def posts (evs : List (Event T)) : Nat := evs.countP Event.isPost

variable {c : Nat} {evs : List (Event T)} {h : HandOff T}

/-- **Units are conserved.** -/
theorem Hist.conservation (H : Hist c evs h) : h.count + (grants evs).length = c + posts evs := by
  induction H with
  | new => simp [grants, posts]
  | @took evs h t _ hc ih =>
    have := (pend_of_pos t hc).1
    simp only [grants, posts, List.flatMap_append, List.flatMap_singleton, List.length_append,
      List.countP_append, List.countP_singleton, Event.granted, Event.isPost,
      List.length_singleton, Bool.false_eq_true, ↓reduceIte] at ih ⊢
    omega
  | @blocked evs h t _ hc ih =>
    have := (pend_of_zero t hc).1
    simp only [grants, posts, List.flatMap_append, List.flatMap_singleton, List.length_append,
      List.countP_append, List.countP_singleton, Event.granted, Event.isPost, List.length_nil,
      Bool.false_eq_true, ↓reduceIte] at ih ⊢
    omega
  | @posted evs h p _ ih =>
    simp only [grants, posts, List.flatMap_append, List.flatMap_singleton, List.length_append,
      List.countP_append, List.countP_singleton, Event.granted, Event.isPost, ↓reduceIte] at ih ⊢
    cases hq : h.queue with
    | nil =>
      have := (post_of_nil hq).1
      simp only [List.head?_nil, Option.toList_none, List.length_nil]
      omega
    | cons w rest =>
      have := (post_of_cons hq).1
      simp only [List.head?_cons, Option.toList_some, List.length_singleton]
      omega

/-- **First in, first out.** The tasks that have blocked are, in order, the tasks
that posts have woken and the tasks still in the queue. -/
theorem Hist.fifo (H : Hist c evs h) :
    evs.filterMap Event.blockedTask = evs.flatMap Event.wokenTasks ++ h.queue := by
  induction H with
  | new => simp
  | took t _ hc ih => simp [ih, (pend_of_pos t hc).2, Event.blockedTask, Event.wokenTasks]
  | blocked t _ hc ih => simp [ih, (pend_of_zero t hc).2, Event.blockedTask, Event.wokenTasks]
  | @posted evs h p _ ih =>
    cases hq : h.queue with
    | nil => simp [ih, hq, (post_of_nil hq).2, Event.blockedTask, Event.wokenTasks]
    | cons w rest => simp [ih, hq, (post_of_cons hq).2, Event.blockedTask, Event.wokenTasks]

/-! ## One unit -/

section
variable [DecidableEq T]

def grantsTo (t : T) (evs : List (Event T)) : Nat := (grants evs).count t

def postsBy (t : T) (evs : List (Event T)) : Nat := evs.countP fun e => e.poster = some t

/-- `t` has been granted units that it has not posted back. -/
def Holds (t : T) (evs : List (Event T)) : Prop := postsBy t evs < grantsTo t evs

/-- Every post is made by a task that holds a unit. -/
def Disciplined (evs : List (Event T)) : Prop :=
  ∀ pre p woken post, evs = pre ++ .posted p woken :: post → ∃ t, p = some t ∧ Holds t pre

theorem grantsTo_append (t : T) (evs : List (Event T)) (e : Event T) :
    grantsTo t (evs ++ [e]) = grantsTo t evs + e.granted.count t := by
  simp [grantsTo, grants]

theorem postsBy_append (t : T) (evs : List (Event T)) (e : Event T) :
    postsBy t (evs ++ [e]) = postsBy t evs + if e.poster = some t then 1 else 0 := by
  simp [postsBy, List.countP_append, List.countP_singleton]

theorem Disciplined.init {evs : List (Event T)} {e : Event T} (d : Disciplined (evs ++ [e])) :
    Disciplined evs :=
  fun pre p woken post he => d pre p woken (post ++ [e]) (by simp [he])

instance (t : T) (evs : List (Event T)) : Decidable (Holds t evs) :=
  inferInstanceAs (Decidable (_ < _))

theorem Disciplined.nil : Disciplined ([] : List (Event T)) := by
  intro pre p woken post he
  simp at he

theorem Disciplined.append {evs : List (Event T)} {e : Event T} (d : Disciplined evs)
    (hp : ∀ p woken, e = .posted p woken → ∃ t, p = some t ∧ Holds t evs) :
    Disciplined (evs ++ [e]) := by
  intro pre p woken post he
  rcases List.eq_nil_or_concat post with rfl | ⟨post', last, rfl⟩
  · obtain ⟨rfl, h2⟩ := List.append_inj' he rfl
    exact hp p woken (List.cons.inj h2).1
  · have he' : evs ++ [e] = (pre ++ .posted p woken :: post') ++ [last] := by simp [he]
    exact d pre p woken post' (List.append_inj' he' rfl).1

theorem holds_blocked (t u : T) (evs : List (Event T)) :
    Holds t (evs ++ [.blocked u]) ↔ Holds t evs := by
  simp [Holds, grantsTo_append, postsBy_append, Event.granted, Event.poster]

/-- With one unit, either it is in the count and every grant has been posted
back, or one task holds it and nobody else has a grant open. -/
theorem Hist.one_holder (H : Hist 1 evs h) (d : Disciplined evs) :
    (h.count = 1 ∧ ∀ t, grantsTo t evs = postsBy t evs) ∨
    (h.count = 0 ∧ ∃ t, grantsTo t evs = postsBy t evs + 1 ∧
      ∀ t', t' ≠ t → grantsTo t' evs = postsBy t' evs) := by
  induction H with
  | new => exact Or.inl ⟨rfl, fun _ => rfl⟩
  | @took evs h t _ hpos ih =>
    have hcount := (pend_of_pos t hpos).1
    rcases ih d.init with ⟨h1, hbal⟩ | ⟨h0, -⟩
    · refine Or.inr ⟨by omega, t, ?_, fun t' ht => ?_⟩
      · simp [grantsTo_append, postsBy_append, Event.granted, Event.poster, hbal t]
      · simp [grantsTo_append, postsBy_append, Event.granted, Event.poster, hbal t', Ne.symm ht]
    · omega
  | @blocked evs h t _ hz ih =>
    have hcount := (pend_of_zero t hz).1
    rcases ih d.init with ⟨h1, -⟩ | ⟨-, t', ht', hoth⟩
    · omega
    · refine Or.inr ⟨hcount, t', ?_, fun t'' hne => ?_⟩
      · simp [grantsTo_append, postsBy_append, Event.granted, Event.poster, ht']
      · simp [grantsTo_append, postsBy_append, Event.granted, Event.poster, hoth t'' hne]
  | @posted evs h p _ ih =>
    obtain ⟨t, rfl, hold⟩ := d evs p _ [] rfl
    unfold Holds at hold
    rcases ih d.init with ⟨-, hbal⟩ | ⟨h0, t', ht', hoth⟩
    · have := hbal t
      omega
    · -- the poster is the one holder
      obtain rfl : t = t' := by
        by_contra hne
        have := hoth t hne
        omega
      cases hq : h.queue with
      | nil =>
        have hcount := (post_of_nil hq).1
        refine Or.inl ⟨by omega, fun t'' => ?_⟩
        by_cases hne : t'' = t
        · subst hne
          simp [grantsTo_append, postsBy_append, Event.granted, Event.poster, ht']
        · simp [grantsTo_append, postsBy_append, Event.granted, Event.poster, hoth t'' hne,
            Ne.symm hne]
      | cons w rest =>
        have hcount := (post_of_cons hq).1
        refine Or.inr ⟨by omega, w, ?_, fun t'' hne => ?_⟩
        · simp only [grantsTo_append, postsBy_append, Event.granted, Event.poster,
            List.head?_cons, Option.toList_some, List.count_singleton_self]
          by_cases hw : w = t
          · subst hw
            simp [ht']
          · simp [hoth w hw, Ne.symm hw]
        · simp only [grantsTo_append, postsBy_append, Event.granted, Event.poster,
            List.head?_cons, Option.toList_some, List.count_singleton]
          by_cases ht : t'' = t
          · subst ht
            simp [ht', Ne.symm hne]
          · simp [hoth t'' ht, Ne.symm hne, Ne.symm ht]

/-- Whoever takes the one unit holds it. -/
theorem Hist.holds_took (H : Hist 1 evs h) (d : Disciplined evs) (t : T) (hc : 0 < h.count) :
    Holds t (evs ++ [.took t]) := by
  rcases H.one_holder d with ⟨-, hbal⟩ | ⟨h0, -⟩
  · simp [Holds, grantsTo_append, postsBy_append, Event.granted, Event.poster, hbal t]
  · omega

/-- Whoever is woken with the one unit holds it. -/
theorem Hist.holds_woken (H : Hist 1 evs h) (d : Disciplined evs) {p w : T} (hp : Holds p evs) :
    Holds w (evs ++ [.posted (some p) [w]]) := by
  unfold Holds at hp ⊢
  rcases H.one_holder d with ⟨-, hbal⟩ | ⟨-, t, ht, hoth⟩
  · have := hbal p
    omega
  · obtain rfl : p = t := by
      by_contra hne
      have := hoth p hne
      omega
    simp only [grantsTo_append, postsBy_append, Event.granted, Event.poster,
      List.count_singleton_self]
    by_cases hw : w = p
    · subst hw
      simp [ht]
    · simp [hoth w hw, Ne.symm hw]

/-- **Mutual exclusion.** -/
theorem Hist.exclusive (H : Hist 1 evs h) (d : Disciplined evs) {t t' : T}
    (ht : Holds t evs) (ht' : Holds t' evs) : t = t' ∧ grantsTo t evs = postsBy t evs + 1 := by
  unfold Holds at ht ht'
  rcases H.one_holder d with ⟨-, hbal⟩ | ⟨-, o, ho, hoth⟩
  · have := hbal t
    omega
  · have h1 : t = o := by
      by_contra hne
      have := hoth t hne
      omega
    have h2 : t' = o := by
      by_contra hne
      have := hoth t' hne
      omega
    subst h1
    exact ⟨h2.symm, ho⟩

end

end HandOff

end MiniEuler.Library
