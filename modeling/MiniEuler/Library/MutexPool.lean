import Mathlib.Logic.Function.Basic

/-! Mutexes that tasks reach through one shared variable. A task reads the variable each
time it pends, and the variable may be given another mutex in between. -/

namespace MiniEuler.Library

/-- How far a task is with a mutex: it has read the variable for a pend, it waits, or the
mutex has been granted to it. -/
inductive Stage
  | loaded
  | waiting
  | granted
  deriving DecidableEq, Repr

/-- `current` is the mutex that the variable names. -/
@[ext] structure MutexPool (T S : Type) where
  current : S
  free : S → Prop
  use : T → Option (S × Stage)

namespace MutexPool

variable {T S : Type} (m : MutexPool T S)

def Granted (t : T) (s : S) : Prop := m.use t = some (s, .granted)

/-- The mutex is taken and nobody is left to give it back. -/
def Lost (s : S) : Prop := ¬ m.free s ∧ ∀ t, ¬ m.Granted t s

/-- No task uses a mutex that can still be granted. -/
def Idle : Prop := ∀ t s g, m.use t = some (s, g) → m.Lost s

structure Sound : Prop where
  taken : ∀ {t s}, m.Granted t s → ¬ m.free s
  one : ∀ {t u s}, m.Granted t s → m.Granted u s → t = u
  named : ∀ {t s g}, m.use t = some (s, g) → s = m.current ∨ m.Lost s

/-! ## Steps -/

section
variable [DecidableEq T] [DecidableEq S]

def load (t : T) : MutexPool T S :=
  { m with use := Function.update m.use t (some (m.current, .loaded)) }

def take (t : T) (s : S) : MutexPool T S :=
  { m with
    free := Function.update m.free s False
    use := Function.update m.use t (some (s, .granted)) }

def wait (t : T) (s : S) : MutexPool T S :=
  { m with use := Function.update m.use t (some (s, .waiting)) }

/-- `t` is done with its mutex, or gone. -/
def drop (t : T) : MutexPool T S := { m with use := Function.update m.use t none }

def give (t : T) (s : S) : MutexPool T S :=
  { m.drop t with free := Function.update m.free s True }

/-- The mutex goes from `t` to `w`, which has waited for it. -/
def handOver (t w : T) (s : S) : MutexPool T S :=
  { m with use := Function.update (Function.update m.use t none) w (some (s, .granted)) }

/-- The variable is given a new mutex. -/
def renew (s : S) : MutexPool T S :=
  { m with current := s, free := Function.update m.free s True }

end

/-! ## Who is granted what after a step -/

theorem update_eq_some {X : Type} [DecidableEq T] {f : T → Option X} {t u : T} {x : Option X}
    {y : X} : Function.update f t x u = some y ↔ u = t ∧ x = some y ∨ u ≠ t ∧ f u = some y := by
  by_cases h : u = t
  · subst h
    simp
  · simp [h]

section
variable {m} {t u w : T} {s s' : S}

theorem free_renew [DecidableEq S] : (m.renew s).free s' ↔ s' = s ∨ m.free s' := by
  by_cases h : s' = s <;> simp [renew, h]

variable [DecidableEq T]

theorem granted_load : (m.load t).Granted u s' ↔ u ≠ t ∧ m.Granted u s' := by
  simp [Granted, load, update_eq_some]

theorem granted_wait : (m.wait t s).Granted u s' ↔ u ≠ t ∧ m.Granted u s' := by
  simp [Granted, wait, update_eq_some]

theorem granted_drop : (m.drop t).Granted u s' ↔ u ≠ t ∧ m.Granted u s' := by
  simp [Granted, drop, update_eq_some]

theorem granted_handOver : (m.handOver t w s).Granted u s' ↔
    u = w ∧ s = s' ∨ u ≠ w ∧ u ≠ t ∧ m.Granted u s' := by
  simp [Granted, handOver, update_eq_some]

variable [DecidableEq S]

theorem granted_take :
    (m.take t s).Granted u s' ↔ u = t ∧ s = s' ∨ u ≠ t ∧ m.Granted u s' := by
  simp [Granted, take, update_eq_some]

theorem granted_give : (m.give t s).Granted u s' ↔ u ≠ t ∧ m.Granted u s' := granted_drop

theorem free_take : (m.take t s).free s' ↔ s' ≠ s ∧ m.free s' := by
  by_cases h : s' = s <;> simp [take, h]

theorem free_give : (m.give t s).free s' ↔ s' = s ∨ m.free s' := by
  by_cases h : s' = s <;> simp [give, h]

end

/-! ## What every step keeps -/

namespace Sound

variable {m : MutexPool T S} {t u w : T} {s s' : S}

theorem not_lost (h : m.Granted t s) : ¬ m.Lost s := fun hl => hl.2 t h

/-- A mutex is granted only while the variable names it. -/
theorem granted_current (M : m.Sound) (h : m.Granted t s) : s = m.current :=
  (M.named h).resolve_right (not_lost h)

/-- **Mutual exclusion.** -/
theorem exclusive (M : m.Sound) (h : m.Granted t s) (h' : m.Granted u s') : t = u := by
  obtain rfl : s = s' := (M.granted_current h).trans (M.granted_current h').symm
  exact M.one h h'

/-- A mutex that nobody uses yet may take the place of the old one when the pool is idle. -/
theorem renew [DecidableEq S] (hidle : m.Idle) (hnew : ∀ t g, m.use t ≠ some (s, g)) :
    (m.renew s).Sound where
  taken hu := absurd (hidle _ _ _ hu) (not_lost hu)
  one hu := absurd (hidle _ _ _ hu) (not_lost hu)
  named := by
    intro u s' g hu
    refine Or.inr ⟨fun hf => ?_, (hidle u s' g hu).2⟩
    rcases free_renew.mp hf with rfl | hf
    · exact hnew u g hu
    · exact (hidle u s' g hu).1 hf

/-- A step that grants nothing and frees nothing. -/
theorem fewer (M : m.Sound) {use : T → Option (S × Stage)}
    (hgranted : ∀ u s, use u = some (s, .granted) → m.Granted u s)
    (hnamed : ∀ u s g, use u = some (s, g) → s = m.current ∨ ∃ g', m.use u = some (s, g')) :
    ({ m with use := use } : MutexPool T S).Sound where
  taken h := M.taken (hgranted _ _ h)
  one h h' := M.one (hgranted _ _ h) (hgranted _ _ h')
  named h := by
    rcases hnamed _ _ _ h with hs | ⟨g', hg⟩
    · exact Or.inl hs
    · exact (M.named hg).imp_right fun hl => ⟨hl.1, fun u hu => hl.2 u (hgranted u _ hu)⟩

variable [DecidableEq T]

theorem load (M : m.Sound) (t : T) : (m.load t).Sound := by
  refine M.fewer (fun u s h => (granted_load.mp h).2) (fun u s g h => ?_)
  rcases update_eq_some.mp h with ⟨-, heq⟩ | ⟨-, hu⟩
  · exact Or.inl (Prod.mk.inj (Option.some.inj heq)).1.symm
  · exact Or.inr ⟨g, hu⟩

theorem wait (M : m.Sound) (h : m.use t = some (s, .loaded)) : (m.wait t s).Sound := by
  refine M.fewer (fun u s' hu => (granted_wait.mp hu).2) (fun u s' g hu => ?_)
  rcases update_eq_some.mp hu with ⟨rfl, heq⟩ | ⟨-, hu⟩
  · obtain rfl := (Prod.mk.inj (Option.some.inj heq)).1
    exact Or.inr ⟨.loaded, h⟩
  · exact Or.inr ⟨g, hu⟩

theorem drop (M : m.Sound) (t : T) : (m.drop t).Sound := by
  refine M.fewer (fun u s h => (granted_drop.mp h).2) (fun u s g h => ?_)
  rcases update_eq_some.mp h with ⟨-, heq⟩ | ⟨-, hu⟩
  · cases heq
  · exact Or.inr ⟨g, hu⟩

theorem handOver (M : m.Sound) (h : m.Granted t s) : (m.handOver t w s).Sound where
  taken := by
    intro u s' hu hf
    rcases granted_handOver.mp hu with ⟨-, rfl⟩ | ⟨-, -, hu⟩
    · exact M.taken h hf
    · exact M.taken hu hf
  one := by
    intro u v s' hu hv
    rcases granted_handOver.mp hu with ⟨rfl, rfl⟩ | ⟨-, hut, hu⟩
    · rcases granted_handOver.mp hv with ⟨rfl, -⟩ | ⟨-, hvt, hv⟩
      · rfl
      · exact absurd (M.one hv h) hvt
    · rcases granted_handOver.mp hv with ⟨-, rfl⟩ | ⟨-, -, hv⟩
      · exact absurd (M.one hu h) hut
      · exact M.one hu hv
  named := by
    intro u s' g hu
    rcases update_eq_some.mp hu with ⟨-, heq⟩ | ⟨-, hu⟩
    · obtain rfl := (Prod.mk.inj (Option.some.inj heq)).1
      exact Or.inl (M.granted_current h)
    rcases update_eq_some.mp hu with ⟨-, heq⟩ | ⟨-, hu⟩
    · cases heq
    · refine (M.named hu).imp_right fun hl => ⟨hl.1, fun v hv => ?_⟩
      rcases granted_handOver.mp hv with ⟨-, rfl⟩ | ⟨-, -, hv⟩
      · exact not_lost h hl
      · exact hl.2 v hv

variable [DecidableEq S]

/-- A free mutex has been granted to nobody. -/
theorem take (M : m.Sound) (h : m.use t = some (s, .loaded)) (hfree : m.free s) :
    (m.take t s).Sound where
  taken := by
    intro u s' hu hf
    rcases granted_take.mp hu with ⟨-, hs⟩ | ⟨-, hu⟩
    · exact (free_take.mp hf).1 hs.symm
    · exact M.taken hu (free_take.mp hf).2
  one := by
    intro u v s' hu hv
    rcases granted_take.mp hu with ⟨rfl, rfl⟩ | ⟨-, hu⟩
    · rcases granted_take.mp hv with ⟨rfl, -⟩ | ⟨-, hv⟩
      · rfl
      · exact absurd hfree (M.taken hv)
    · rcases granted_take.mp hv with ⟨-, rfl⟩ | ⟨-, hv⟩
      · exact absurd hfree (M.taken hu)
      · exact M.one hu hv
  named := by
    intro u s' g hu
    rcases update_eq_some.mp hu with ⟨-, heq⟩ | ⟨-, hu⟩
    · obtain rfl := (Prod.mk.inj (Option.some.inj heq)).1
      exact Or.inl ((M.named h).resolve_right fun hl => hl.1 hfree)
    · refine (M.named hu).imp_right fun hl => ⟨fun hf => hl.1 (free_take.mp hf).2, fun v hv => ?_⟩
      rcases granted_take.mp hv with ⟨-, rfl⟩ | ⟨-, hv⟩
      · exact hl.1 hfree
      · exact hl.2 v hv

/-- A task gives back the mutex that the variable names. -/
theorem give (M : m.Sound) (h : m.Granted t s) : (m.give t s).Sound where
  taken := by
    intro u s' hu hf
    obtain ⟨hne, hold⟩ := granted_give.mp hu
    rcases free_give.mp hf with rfl | hf
    · exact hne (M.one hold h)
    · exact M.taken hold hf
  one hu hv := M.one (granted_give.mp hu).2 (granted_give.mp hv).2
  named := by
    intro u s' g hu
    rcases update_eq_some.mp hu with ⟨-, heq⟩ | ⟨-, hu⟩
    · cases heq
    · refine (M.named hu).imp_right fun hl => ⟨fun hf => ?_, fun v hv =>
        hl.2 v (granted_give.mp hv).2⟩
      rcases free_give.mp hf with rfl | hf
      · exact not_lost h hl
      · exact hl.1 hf

end Sound

end MutexPool

end MiniEuler.Library
