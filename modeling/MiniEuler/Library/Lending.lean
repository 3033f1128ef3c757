import Mathlib.Order.Bounds.Basic

/-! Priority lending. The holder of a mutex is lent the priority of its most urgent waiter,
and tasks hold one mutex at a time, so that what is lent comes from one queue. The smaller
priority is the more urgent one. -/

namespace MiniEuler.Library

structure Lending (T M P : Type) where
  base : T → P
  prio : T → P
  holder : M → Option T
  queue : M → List T

namespace Lending

variable {T M P : Type} [LinearOrder P]

/-- The base of `t`, and those of the tasks that wait for `m`. -/
def claims (l : Lending T M P) (m : M) (t : T) : Set P :=
  insert (l.base t) (l.base '' {w | w ∈ l.queue m})

/-- The holder of `m` is as urgent as its waiters ask for, and not more. -/
def ExactAt (l : Lending T M P) (m : M) : Prop :=
  ∀ t, l.holder m = some t → IsLeast (l.claims m t) (l.prio t)

def Exact (l : Lending T M P) : Prop := ∀ m, l.ExactAt m

/-- No task that waits for `m` is more urgent than the one that has waited longest. -/
def Fair (l : Lending T M P) (m : M) : Prop :=
  ∀ w rest, l.queue m = w :: rest → ∀ q ∈ rest, l.base w ≤ l.base q

/-- Each task of `K` has to do with one mutex at most, and only a holder with waiters is lent
a priority. -/
structure OneEach (K : Set T) (l : Lending T M P) : Prop where
  holds : ∀ {m t}, l.holder m = some t → t ∈ K
  waits : ∀ {m t}, t ∈ l.queue m → t ∈ K
  single : ∀ {m m' t}, l.holder m = some t → l.holder m' = some t → m = m'
  apart : ∀ {m m' t}, t ∈ l.queue m → l.holder m' ≠ some t
  once : ∀ {m m' t}, t ∈ l.queue m → t ∈ l.queue m' → m = m'
  nodup : ∀ m, (l.queue m).Nodup
  alone : ∀ {t}, t ∈ K → (∀ m, l.holder m = some t → l.queue m = []) → l.prio t = l.base t
  lent : ∀ {m t}, l.holder m = some t →
    l.prio t = l.base t ∨ IsLeast (l.claims m t) (l.prio t)

/-- `t` neither holds a mutex nor waits for one. -/
structure Apart (l : Lending T M P) (t : T) : Prop where
  holder : ∀ m, l.holder m ≠ some t
  queue : ∀ m, t ∉ l.queue m

/-- `p` is what `o` may get when it gives `m` back: its base, or the priority of a waiter that
is more urgent than `o` has been made. -/
def Restored (l : Lending T M P) (m : M) (o : T) (p : P) : Prop :=
  p = l.base o ∨ l.prio o ≠ l.base o ∧ p < l.prio o ∧ ∃ w ∈ l.queue m, p = l.prio w

namespace OneEach

variable {K : Set T} {l l' : Lending T M P} (O : OneEach K l) {m m' : M} {t o : T}
include O

theorem prio_of_apart (ht : t ∈ K) (ha : l.Apart t) : l.prio t = l.base t :=
  O.alone ht fun m hm => absurd hm (ha.holder m)

theorem prio_of_waiter (ht : t ∈ l.queue m) : l.prio t = l.base t :=
  O.alone (O.waits ht) fun _ hm' => absurd hm' (O.apart ht)

/-- What is given back is what was lent: nobody who waits is more urgent than the holder. -/
theorem restored {p : P} (ho : l.holder m = some o) (hp : l.Restored m o p) : p = l.base o := by
  rcases hp with rfl | ⟨hne, hlt, w, hw, rfl⟩
  · rfl
  · have hleast := (O.lent ho).resolve_left hne
    have hle := hleast.2 (Set.mem_insert_of_mem _ ⟨w, hw, rfl⟩)
    rw [O.prio_of_waiter hw] at hlt
    exact absurd hlt hle.not_gt

/-- Waiting makes the holder as urgent as it has to be. -/
theorem least_of_wait {v : P} (ht : t ∈ K) (ha : l.Apart t) (ho : l.holder m = some o)
    (hv : IsLeast (l.prio '' {w | w ∈ l.queue m ++ [t]}) v) :
    IsLeast (insert (l.base o) (l.base '' {w | w ∈ l.queue m ++ [t]})) (min (l.prio o) v) := by
  have himage : l.prio '' {w | w ∈ l.queue m ++ [t]} = l.base '' {w | w ∈ l.queue m ++ [t]} := by
    refine Set.image_congr fun w hw => ?_
    rcases List.mem_append.mp hw with hw | hw
    · exact O.prio_of_waiter hw
    · rw [List.mem_singleton.mp hw]
      exact O.prio_of_apart ht ha
  rw [himage] at hv
  rcases O.lent ho with hb | hl
  · rw [hb]
    exact hv.insert _
  · have hunion := hl.union hv
    have hset : l.claims m o ∪ l.base '' {w | w ∈ l.queue m ++ [t]} =
        insert (l.base o) (l.base '' {w | w ∈ l.queue m ++ [t]}) := by
      rw [claims, Set.insert_union]
      congr 1
      refine Set.union_eq_self_of_subset_left (Set.image_mono fun w hw => ?_)
      exact List.mem_append_left _ hw
    rwa [hset] at hunion

/-- The holder is as urgent as it has to be when no waiter outranks it. -/
theorem exactAt_iff : l.ExactAt m ↔
    ∀ t w, l.holder m = some t → w ∈ l.queue m → l.prio t ≤ l.base w := by
  constructor
  · exact fun E t w ht hw => (E t ht).2 (Set.mem_insert_of_mem _ ⟨w, hw, rfl⟩)
  · intro h t ht
    rcases O.lent ht with hb | hl
    · refine ⟨hb ▸ Set.mem_insert _ _, ?_⟩
      rintro p (rfl | ⟨w, hw, rfl⟩)
      · exact hb.le
      · exact h t w ht hw
    · exact hl

end OneEach

/-! ## Steps -/

variable [DecidableEq T] [DecidableEq M]

/-- A step that hands no mutex over. -/
inductive Step (K : Set T) (l : Lending T M P) : Lending T M P → Prop
  | stay : Step K l l
  | adopt {t : T} (p : P) : l.Apart t →
      Step K l { l with base := Function.update l.base t p, prio := Function.update l.prio t p }
  | take {m : M} {t : T} : t ∈ K → l.Apart t → l.queue m = [] →
      Step K l { l with holder := Function.update l.holder m (some t) }
  | wait {m : M} {t o : T} {v : P} : t ∈ K → l.Apart t → l.holder m = some o →
      IsLeast (l.prio '' {w | w ∈ l.queue m ++ [t]}) v →
      Step K l { l with
        queue := Function.update l.queue m (l.queue m ++ [t])
        prio := Function.update l.prio o (min (l.prio o) v) }
  | release {m : M} {o : T} {p : P} : l.holder m = some o → l.queue m = [] →
      l.Restored m o p →
      Step K l { l with
        holder := Function.update l.holder m none
        prio := Function.update l.prio o p }

/-- The holder gives `m` to the task that has waited longest. -/
inductive HandOver (m : M) (l : Lending T M P) : Lending T M P → Prop
  | intro {o w : T} {rest : List T} {p : P} : l.holder m = some o → l.queue m = w :: rest →
      l.Restored m o p →
      HandOver m l { l with
        holder := Function.update l.holder m (some w)
        queue := Function.update l.queue m rest
        prio := Function.update l.prio o p }

namespace OneEach

variable {K : Set T} {l l' : Lending T M P} (O : OneEach K l) {m m' : M} {t o : T}
include O

omit [DecidableEq M] in
theorem adopt (p : P) (ha : l.Apart t) : OneEach K { l with
    base := Function.update l.base t p, prio := Function.update l.prio t p } where
  holds := O.holds
  waits := O.waits
  single := O.single
  apart := O.apart
  once := O.once
  nodup := O.nodup
  alone {u} hu hq := by
    by_cases hut : u = t
    · subst hut
      simp
    · simpa [hut] using O.alone hu hq
  lent {m u} hu := by
    have hne : u ≠ t := by
      rintro rfl
      exact ha.holder m hu
    have hclaims : insert (Function.update l.base t p u)
        (Function.update l.base t p '' {w | w ∈ l.queue m}) = l.claims m u := by
      rw [claims, Function.update_of_ne hne]
      congr 1
      refine Set.image_congr fun w hw => Function.update_of_ne ?_ _ _
      rintro rfl
      exact ha.queue m hw
    rw [claims, hclaims]
    simpa [hne] using O.lent hu

omit [DecidableEq T] in
theorem take (ht : t ∈ K) (ha : l.Apart t) (hq : l.queue m = []) :
    OneEach K { l with holder := Function.update l.holder m (some t) } := by
  have hprev : ∀ {m' u}, Function.update l.holder m (some t) m' = some u →
      m' = m ∧ u = t ∨ m' ≠ m ∧ l.holder m' = some u := by
    intro m' u hu
    by_cases hm : m' = m
    · subst hm
      simp only [Function.update_self, Option.some.injEq] at hu
      exact Or.inl ⟨rfl, hu.symm⟩
    · exact Or.inr ⟨hm, by simpa [hm] using hu⟩
  refine { holds := ?_, waits := O.waits, single := ?_, apart := ?_, once := O.once
           nodup := O.nodup, alone := ?_, lent := ?_ }
  · intro m' u hu
    rcases hprev hu with ⟨-, rfl⟩ | ⟨-, hu⟩
    · exact ht
    · exact O.holds hu
  · intro m₁ m₂ u h₁ h₂
    rcases hprev h₁ with ⟨rfl, rfl⟩ | ⟨-, old₁⟩
    · rcases hprev h₂ with ⟨rfl, -⟩ | ⟨-, old₂⟩
      · rfl
      · exact absurd old₂ (ha.holder m₂)
    · rcases hprev h₂ with ⟨-, rfl⟩ | ⟨-, old₂⟩
      · exact absurd old₁ (ha.holder m₁)
      · exact O.single old₁ old₂
  · intro m₁ m₂ u hu h
    rcases hprev h with ⟨-, rfl⟩ | ⟨-, h⟩
    · exact ha.queue m₁ hu
    · exact O.apart hu h
  · intro u hu hall
    refine O.alone hu fun m' hm' => ?_
    by_cases hm : m' = m
    · rw [hm]
      exact hq
    · exact hall m' (by simpa [hm] using hm')
  · intro m' u hu
    rcases hprev hu with ⟨rfl, rfl⟩ | ⟨-, hu⟩
    · exact Or.inl (O.prio_of_apart ht ha)
    · exact O.lent hu

theorem wait {v : P} (ht : t ∈ K) (ha : l.Apart t) (ho : l.holder m = some o)
    (hv : IsLeast (l.prio '' {w | w ∈ l.queue m ++ [t]}) v) : OneEach K { l with
      queue := Function.update l.queue m (l.queue m ++ [t])
      prio := Function.update l.prio o (min (l.prio o) v) } := by
  have hprev : ∀ {m' u}, u ∈ Function.update l.queue m (l.queue m ++ [t]) m' →
      u ∈ l.queue m' ∨ m' = m ∧ u = t := by
    intro m' u hu
    by_cases hm : m' = m
    · subst hm
      simpa using hu
    · exact Or.inl (by simpa [hm] using hu)
  have hne : o ≠ t := by
    rintro rfl
    exact ha.holder m ho
  refine { holds := O.holds, waits := ?_, single := O.single, apart := ?_, once := ?_
           nodup := ?_, alone := ?_, lent := ?_ }
  · intro m' u hu
    rcases hprev hu with hu | ⟨-, rfl⟩
    · exact O.waits hu
    · exact ht
  · intro m' m'' u hu
    rcases hprev hu with hu | ⟨-, rfl⟩
    · exact O.apart hu
    · exact ha.holder m''
  · intro m₁ m₂ u h₁ h₂
    rcases hprev h₁ with old₁ | ⟨rfl, rfl⟩
    · rcases hprev h₂ with old₂ | ⟨-, rfl⟩
      · exact O.once old₁ old₂
      · exact absurd old₁ (ha.queue m₁)
    · rcases hprev h₂ with old₂ | ⟨rfl, -⟩
      · exact absurd old₂ (ha.queue m₂)
      · rfl
  · intro m'
    by_cases hm : m' = m
    · subst hm
      simp only [Function.update_self]
      refine List.nodup_append.mpr ⟨O.nodup m', List.pairwise_singleton _ _, fun u hu w hw => ?_⟩
      rw [List.mem_singleton.mp hw]
      exact ne_of_mem_of_not_mem hu (ha.queue m')
    · simpa [hm] using O.nodup m'
  · intro u hu hall
    have huo : u ≠ o := by
      rintro rfl
      have := hall m ho
      simp at this
    refine (Function.update_of_ne huo _ _).trans (O.alone hu fun m' hm' => ?_)
    have hm : m' ≠ m := by
      rintro rfl
      exact huo (Option.some.inj (hm'.symm.trans ho))
    simpa [hm] using hall m' hm'
  · intro m' u hu
    by_cases hm : m' = m
    · subst hm
      obtain rfl : u = o := Option.some.inj (hu.symm.trans ho)
      right
      simpa [claims] using O.least_of_wait ht ha ho hv
    · have huo : u ≠ o := by
        rintro rfl
        exact hm (O.single hu ho)
      simpa [claims, hm, huo] using O.lent hu

/-- The mutex goes from `o` to nobody, or to one of its waiters. -/
theorem pass {p : P} {next : Option T} {rest : List T} (ho : l.holder m = some o)
    (hnext : ∀ w, next = some w → w ∈ l.queue m ∧ w ∉ rest) (hrest : rest.Sublist (l.queue m))
    (hp : l.Restored m o p) : OneEach K { l with
      holder := Function.update l.holder m next
      queue := Function.update l.queue m rest
      prio := Function.update l.prio o p } := by
  have hhold : ∀ {m' u}, Function.update l.holder m next m' = some u →
      m' = m ∧ next = some u ∨ m' ≠ m ∧ l.holder m' = some u := by
    intro m' u hu
    by_cases hm : m' = m
    · subst hm
      exact Or.inl ⟨rfl, by simpa using hu⟩
    · exact Or.inr ⟨hm, by simpa [hm] using hu⟩
  have hqueue : ∀ m', (Function.update l.queue m rest m').Sublist (l.queue m') := by
    intro m'
    by_cases hm : m' = m
    · subst hm
      simpa using hrest
    · simp [hm]
  have hmem : ∀ {m' u}, u ∈ Function.update l.queue m rest m' → u ∈ l.queue m' :=
    fun {m' u} hu => (hqueue m').subset hu
  have hpo := O.restored ho hp
  have hbase : ∀ u, l.prio u = l.base u → Function.update l.prio o p u = l.base u := by
    intro u hu
    by_cases huo : u = o
    · subst huo
      rw [Function.update_self, hpo]
    · rw [Function.update_of_ne huo, hu]
  refine { holds := ?_, waits := fun hu => O.waits (hmem hu), single := ?_, apart := ?_
           once := fun h₁ h₂ => O.once (hmem h₁) (hmem h₂)
           nodup := fun m' => (O.nodup m').sublist (hqueue m'), alone := ?_, lent := ?_ }
  · intro m' u hu
    rcases hhold hu with ⟨rfl, new⟩ | ⟨-, old⟩
    · exact O.waits (hnext u new).1
    · exact O.holds old
  · intro m₁ m₂ u h₁ h₂
    rcases hhold h₁ with ⟨rfl, new₁⟩ | ⟨-, old₁⟩ <;> rcases hhold h₂ with ⟨rfl, new₂⟩ | ⟨-, old₂⟩
    · rfl
    · exact absurd old₂ (O.apart (hnext u new₁).1)
    · exact absurd old₁ (O.apart (hnext u new₂).1)
    · exact O.single old₁ old₂
  · intro m₁ m₂ u hu h
    rcases hhold h with ⟨rfl, new⟩ | ⟨-, old⟩
    · obtain ⟨hin, hout⟩ := hnext u new
      obtain rfl := O.once (hmem hu) hin
      exact hout (by simpa using hu)
    · exact O.apart (hmem hu) old
  · intro u hu hall
    by_cases huo : u = o
    · subst huo
      exact (Function.update_self ..).trans hpo
    · refine (Function.update_of_ne huo _ _).trans (O.alone hu fun m' hm' => ?_)
      have hm : m' ≠ m := by
        rintro rfl
        exact huo (Option.some.inj (hm'.symm.trans ho))
      simpa [hm] using hall m' (by simpa [hm] using hm')
  · intro m' u hu
    rcases hhold hu with ⟨rfl, new⟩ | ⟨hm, old⟩
    · exact Or.inl (hbase u (O.prio_of_waiter (hnext u new).1))
    · have huo : u ≠ o := by
        rintro rfl
        exact hm (O.single old ho)
      simpa [claims, hm, huo] using O.lent old

/-- **Step lemma.** -/
theorem step (h : Step K l l') : OneEach K l' := by
  cases h with
  | stay => exact O
  | adopt p ha => exact O.adopt p ha
  | take ht ha hq => exact O.take ht ha hq
  | wait ht ha ho hv => exact O.wait ht ha ho hv
  | @release m o p ho hq hp =>
    have h : OneEach K { l with
        holder := Function.update l.holder m none
        queue := Function.update l.queue m []
        prio := Function.update l.prio o p } :=
      O.pass ho (fun w hw => by cases hw) (List.nil_sublist _) hp
    rwa [← hq, Function.update_eq_self] at h

theorem handOver (h : HandOver m l l') : OneEach K l' := by
  cases h with
  | @intro o w rest p ho hq hp =>
    have hnd := O.nodup m
    rw [hq] at hnd
    refine O.pass ho (fun u hu => ?_) (by rw [hq]; exact List.sublist_cons_self w rest) hp
    obtain rfl := Option.some.inj hu
    exact ⟨by simp [hq], (List.nodup_cons.mp hnd).1⟩

/-! ## What steps do to the urgency of holders -/

/-- Only a hand-over can leave a holder that a waiter outranks. -/
theorem exactAt_step (E : l.ExactAt m') (h : Step K l l') : l'.ExactAt m' := by
  refine (O.step h).exactAt_iff.mpr fun u w hu hw => ?_
  have hle := O.exactAt_iff.mp E
  cases h with
  | stay => exact hle u w hu hw
  | @adopt t p ha =>
    have hut : u ≠ t := fun h => ha.holder m' (h ▸ hu)
    have hwt : w ≠ t := fun h => ha.queue m' (h ▸ hw)
    simpa [hut, hwt] using hle u w hu hw
  | @take m t ht ha hq =>
    by_cases hm : m' = m
    · subst hm
      rw [hq] at hw
      cases hw
    · exact hle u w (by simpa [hm] using hu) hw
  | @wait m t o v ht ha ho hv =>
    by_cases hm : m' = m
    · subst hm
      obtain rfl : u = o := Option.some.inj (hu.symm.trans ho)
      simp only [Function.update_self] at hw ⊢
      exact (O.least_of_wait ht ha ho hv).2 (Set.mem_insert_of_mem _ ⟨w, hw, rfl⟩)
    · have huo : u ≠ o := by
        rintro rfl
        exact hm (O.single hu ho)
      simpa [huo] using hle u w hu (by simpa [hm] using hw)
  | @release m o p ho hq hp =>
    by_cases hm : m' = m
    · subst hm
      simp at hu
    · have old : l.holder m' = some u := by simpa [hm] using hu
      have huo : u ≠ o := by
        rintro rfl
        exact hm (O.single old ho)
      simpa [huo] using hle u w old hw

/-- A hand-over leaves one exactly when the next holder is outranked by a task that still
waits. -/
theorem exactAt_handOver_iff (h : HandOver m l l') : l'.ExactAt m ↔ l.Fair m := by
  rw [(O.handOver h).exactAt_iff]
  cases h with
  | @intro o w rest p ho hq hp =>
    have hw : w ∈ l.queue m := by simp [hq]
    have hwo : w ≠ o := fun h => O.apart hw (h ▸ ho)
    have hprio : Function.update l.prio o p w = l.base w := by
      rw [Function.update_of_ne hwo, O.prio_of_waiter hw]
    constructor
    · intro h w' rest' hq' q hr
      obtain ⟨rfl, rfl⟩ := List.cons.inj (hq.symm.trans hq')
      have hqw := h w q (Function.update_self ..) (by simpa using hr)
      rwa [← hprio]
    · intro hfair u q hu hqm
      obtain rfl : w = u := by simpa using hu
      exact hprio.trans_le (hfair w rest hq q (by simpa using hqm))

/-- It does nothing to the other mutexes. -/
theorem exactAt_handOver_other (E : l.ExactAt m') (hm : m' ≠ m) (h : HandOver m l l') :
    l'.ExactAt m' := by
  refine (O.handOver h).exactAt_iff.mpr fun u q hu hq => ?_
  cases h with
  | @intro o w rest p ho _ _ =>
    have old : l.holder m' = some u := by simpa [hm] using hu
    have huo : u ≠ o := by
      rintro rfl
      exact hm (O.single old ho)
    simpa [huo] using O.exactAt_iff.mp E u q old (by simpa [hm] using hq)

theorem exact_step (E : l.Exact) (h : Step K l l') : l'.Exact := fun m => O.exactAt_step (E m) h

theorem exact_handOver_iff (E : l.Exact) (h : HandOver m l l') : l'.Exact ↔ l.Fair m := by
  refine ⟨fun E' => (O.exactAt_handOver_iff h).mp (E' m), fun hfair m' => ?_⟩
  by_cases hm : m' = m
  · rw [hm]
    exact (O.exactAt_handOver_iff h).mpr hfair
  · exact O.exactAt_handOver_other (E m') hm h

end OneEach

end Lending

end MiniEuler.Library
