import Mathlib.Logic.Function.Basic

/-! Programs that mask interrupts by hand. A program reads and writes the state it shares with
the other threads, saves and sets the mask bit, restores it, makes a thread, and hands the
processor over. It is a tree of these steps, so that it can stop between any two of them. -/

namespace MiniEuler.Library

/-- A register with a mask bit. Masking hands a value to the program, and restoring that value
sets the bit to what it was. -/
structure MaskReg (ρ ς : Type) where
  masked : ρ → Bool
  lock : ρ → ρ
  save : ρ → ς
  restore : ς → ρ → ρ
  bitOf : ς → Bool
  masked_lock : ∀ r, masked (lock r) = true
  bitOf_save : ∀ r, bitOf (save r) = masked r
  masked_restore : ∀ s r, masked (restore s r) = bitOf s

/-- Programs over a state `σ` that save values in `ς` and make threads named in `ι`. -/
inductive Prog (σ ς ι α : Type)
  | ret (v : α)
  | read (next : σ → Prog σ ς ι α)
  | write (f : σ → σ) (next : Prog σ ς ι α)
  /-- Make the thread `t`, ready to start. -/
  | spawn (t : ι) (next : Prog σ ς ι α)
  | lock (next : ς → Prog σ ς ι α)
  | restore (saved : ς) (next : Prog σ ς ι α)
  /-- Write, and go on with the thread that is current then; this one goes on later. -/
  | yield (f : σ → σ) (next : Prog σ ς ι α)

namespace Prog

variable {ρ σ ς ι α β : Type}

def bind (p : Prog σ ς ι α) (k : α → Prog σ ς ι β) : Prog σ ς ι β :=
  match p with
  | ret v => k v
  | read next => read fun s => (next s).bind k
  | write f next => write f (next.bind k)
  | spawn t next => spawn t (next.bind k)
  | lock next => lock fun s => (next s).bind k
  | restore saved next => restore saved (next.bind k)
  | yield f next => yield f (next.bind k)

instance : Monad (Prog σ ς ι) where
  pure := ret
  bind := bind

@[simp] theorem pure_eq (v : α) : (pure v : Prog σ ς ι α) = ret v := rfl

@[simp] theorem bind_eq (p : Prog σ ς ι α) (k : α → Prog σ ς ι β) : (p >>= k) = p.bind k := rfl

/-- What a program does when nobody comes in between: the state it leaves and its value. -/
def exec (R : MaskReg ρ ς) : Prog σ ς ι α → ρ → σ → σ × α
  | ret v, _, s => (s, v)
  | read next, r, s => (next s).exec R r s
  | write f next, r, s => next.exec R r (f s)
  | spawn _ next, r, s => next.exec R r s
  | lock next, r, s => (next (R.save r)).exec R (R.lock r) s
  | restore saved next, r, s => next.exec R (R.restore saved r) s
  | yield f next, r, s => next.exec R r (f s)

/-- The register when the program ends. -/
def regAfter (R : MaskReg ρ ς) : Prog σ ς ι α → ρ → σ → ρ
  | ret _, r, _ => r
  | read next, r, s => (next s).regAfter R r s
  | write f next, r, s => next.regAfter R r (f s)
  | spawn _ next, r, s => next.regAfter R r s
  | lock next, r, s => (next (R.save r)).regAfter R (R.lock r) s
  | restore saved next, r, s => next.regAfter R (R.restore saved r) s
  | yield f next, r, s => next.regAfter R r (f s)

theorem exec_bind (R : MaskReg ρ ς) (p : Prog σ ς ι α) (k : α → Prog σ ς ι β) (r : ρ) (s : σ) :
    (p.bind k).exec R r s =
      (k (p.exec R r s).2).exec R (p.regAfter R r s) (p.exec R r s).1 := by
  induction p generalizing r s with
  | ret v => simp only [bind, exec, regAfter]
  | read next ih => exact ih s r s
  | write f next ih => exact ih r (f s)
  | spawn t next ih => exact ih r s
  | lock next ih => exact ih (R.save r) (R.lock r) s
  | restore saved next ih => exact ih (R.restore saved r) s
  | yield f next ih => exact ih r (f s)

theorem exec_ite (R : MaskReg ρ ς) (c : Prop) [Decidable c] (p q : Prog σ ς ι α) (r : ρ) (s : σ) :
    (if c then p else q).exec R r s = if c then p.exec R r s else q.exec R r s :=
  apply_ite (fun p => p.exec R r s) c p q

/-- Started with the mask bit `m`, the program ends with the bit `b`, and it is masked wherever
it writes, makes a thread or hands the processor over. Only handing over changes which thread is
the current one. -/
def Balanced (R : MaskReg ρ ς) (cur : σ → ι) (b : Bool) : Bool → Prog σ ς ι α → Prop
  | m, ret _ => m = b
  | m, read next => ∀ s, (next s).Balanced R cur b m
  | m, write f next => m = true ∧ (∀ s, cur (f s) = cur s) ∧ next.Balanced R cur b m
  | m, spawn _ next => m = true ∧ next.Balanced R cur b m
  | m, lock next => ∀ s, R.bitOf s = m → (next s).Balanced R cur b true
  | _, restore saved next => next.Balanced R cur b (R.bitOf saved)
  | m, yield _ next => m = true ∧ next.Balanced R cur b m

/-- A conditional is balanced when both of its branches are. -/
theorem Balanced.ite {R : MaskReg ρ ς} {cur : σ → ι} {c : Prop} [Decidable c]
    {p q : Prog σ ς ι α} {b m : Bool} (hp : c → p.Balanced R cur b m)
    (hq : ¬ c → q.Balanced R cur b m) : (if c then p else q).Balanced R cur b m := by
  split
  · exact hp ‹_›
  · exact hq ‹_›

/-- **Sequence rule.** -/
theorem Balanced.bind {R : MaskReg ρ ς} {cur : σ → ι} {p : Prog σ ς ι α}
    {k : α → Prog σ ς ι β} {b c m : Bool} (hp : p.Balanced R cur c m)
    (hk : ∀ v, (k v).Balanced R cur b c) : (p.bind k).Balanced R cur b m := by
  induction p generalizing m with
  | ret v =>
    have hm : m = c := hp
    subst hm
    exact hk v
  | read next ih => exact fun s => ih s (hp s)
  | write f next ih => exact ⟨hp.1, hp.2.1, ih hp.2.2⟩
  | spawn t next ih => exact ⟨hp.1, ih hp.2⟩
  | lock next ih => exact fun s hs => ih s (hp s hs)
  | restore saved next ih => exact ih hp
  | yield f next ih => exact ⟨hp.1, ih hp.2⟩

/-- `P` holds in every state that the program goes through when nobody comes in between. -/
def Throughout (R : MaskReg ρ ς) (P : σ → Prop) : Prog σ ς ι α → ρ → σ → Prop
  | ret _, _, s => P s
  | read next, r, s => (next s).Throughout R P r s
  | write f next, r, s => P s ∧ next.Throughout R P r (f s)
  | spawn _ next, r, s => next.Throughout R P r s
  | lock next, r, s => (next (R.save r)).Throughout R P (R.lock r) s
  | restore saved next, r, s => next.Throughout R P (R.restore saved r) s
  | yield f next, r, s => P s ∧ next.Throughout R P r (f s)

/-- A conditional goes through the states of the branch it takes. -/
theorem Throughout.ite {R : MaskReg ρ ς} {P : σ → Prop} {c : Prop} [Decidable c]
    {p q : Prog σ ς ι α} {r : ρ} {s : σ} (hp : c → p.Throughout R P r s)
    (hq : ¬ c → q.Throughout R P r s) : (if c then p else q).Throughout R P r s := by
  split
  · exact hp ‹_›
  · exact hq ‹_›

/-- What holds throughout holds at the end. -/
theorem Throughout.last {R : MaskReg ρ ς} {P : σ → Prop} {p : Prog σ ς ι α} {r : ρ} {s : σ}
    (h : p.Throughout R P r s) : P (p.exec R r s).1 := by
  induction p generalizing r s with
  | ret v => exact h
  | read next ih => exact ih s h
  | write f next ih => exact ih h.2
  | spawn t next ih => exact ih h
  | lock next ih => exact ih (R.save r) h
  | restore saved next ih => exact ih h
  | yield f next ih => exact ih h.2

theorem Throughout.mono {R : MaskReg ρ ς} {P Q : σ → Prop} (hPQ : ∀ s, P s → Q s)
    {p : Prog σ ς ι α} {r : ρ} {s : σ} (h : p.Throughout R P r s) : p.Throughout R Q r s := by
  induction p generalizing r s with
  | ret v => exact hPQ s h
  | read next ih => exact ih s h
  | write f next ih => exact ⟨hPQ s h.1, ih h.2⟩
  | spawn t next ih => exact ih h
  | lock next ih => exact ih (R.save r) h
  | restore saved next ih => exact ih h
  | yield f next ih => exact ⟨hPQ s h.1, ih h.2⟩

/-- **Sequence rule** for the states on the way: the second program starts where the first ends. -/
theorem Throughout.bind {R : MaskReg ρ ς} {P : σ → Prop} {p : Prog σ ς ι α}
    {k : α → Prog σ ς ι β} {r : ρ} {s : σ} (hp : p.Throughout R P r s)
    (hk : (k (p.exec R r s).2).Throughout R P (p.regAfter R r s) (p.exec R r s).1) :
    (p.bind k).Throughout R P r s := by
  induction p generalizing r s with
  | ret v => exact hk
  | read next ih => exact ih s hp hk
  | write f next ih => exact ⟨hp.1, ih hp.2 hk⟩
  | spawn t next ih => exact ih hp hk
  | lock next ih => exact ih (R.save r) hp hk
  | restore saved next ih => exact ih hp hk
  | yield f next ih => exact ⟨hp.1, ih hp.2 hk⟩

/-- The second program keeps `P` wherever it is started. -/
theorem Throughout.bind_keeps {R : MaskReg ρ ς} {P : σ → Prop} {p : Prog σ ς ι α}
    {k : α → Prog σ ς ι β} {r : ρ} {s : σ} (hp : p.Throughout R P r s)
    (hk : ∀ v r s, P s → (k v).Throughout R P r s) : (p.bind k).Throughout R P r s :=
  hp.bind (hk _ _ _ hp.last)

end Prog

end MiniEuler.Library
