import MiniEuler.Library.Bytes

/-! Words stored over data that is kept elsewhere. A model may keep a block of memory as a record,
one component for each field; when words are stored over the block, each field that they reach
has to be read again from its bytes. -/

namespace MiniEuler.Library

/-- The number whose `n` bytes start at `a`, the lowest first. -/
def loadNat (mem : ByteMem) (a : BitVec 64) : Nat → Nat
  | 0 => 0
  | n + 1 => (mem a).toNat + 256 * loadNat mem (a + 1) n

def storeNat (mem : ByteMem) (a : BitVec 64) (n v : Nat) : ByteMem := fun b =>
  if (b - a).toNat < n then BitVec.ofNat 8 (v / 256 ^ (b - a).toNat) else mem b

/-- A field of a block: where its bytes are in the block, and how a record keeps its value. -/
structure BlockField (β : Type) where
  offset : Nat
  size : Nat
  get : β → Nat
  put : Nat → β → β

variable {β : Type} {a base dst : BitVec 64} {n m : Nat} {ws : List (BitVec 64)}

/-- The word at `a`, which was `v`, after words have been stored from `dst` on. -/
def wordAfter (dst : BitVec 64) (ws : List (BitVec 64)) (a v : BitVec 64) : BitVec 64 :=
  load64 (storeWords (store64 (fun _ => 0) a v) dst ws) a

/-- The number of `n` bytes at `a`, which was `v`. -/
def numberAfter (dst : BitVec 64) (ws : List (BitVec 64)) (a : BitVec 64) (n v : Nat) : Nat :=
  loadNat (storeWords (storeNat (fun _ => 0) a n v) dst ws) a n

/-- The block at `base`. A field that the words do not reach is left alone. -/
def blockAfter (dst : BitVec 64) (ws : List (BitVec 64)) (fields : List (BlockField β))
    (base : BitVec 64) (b : β) : β :=
  fields.foldl (fun b f =>
    if SpansApart (base + BitVec.ofNat 64 f.offset) f.size dst (8 * ws.length) then b
    else f.put (numberAfter dst ws (base + BitVec.ofNat 64 f.offset) f.size (f.get b)) b) b

/-- What is apart from a block is apart from each part of it. -/
theorem SpansApart.part (h : SpansApart base n dst m) {offset size : Nat} (hsize : 0 < size)
    (hfits : offset + size ≤ n) : SpansApart (base + BitVec.ofNat 64 offset) size dst m := by
  obtain ⟨hn, hm⟩ := h
  have hlt := (dst - base).isLt
  constructor <;> bv_omega

/-- A word that the stored ones do not reach keeps its value. -/
theorem wordAfter_of_apart (h : SpansApart a 8 dst (8 * ws.length)) (hlen : 8 * ws.length ≤ 2 ^ 64)
    (v : BitVec 64) : wordAfter dst ws a v = v := by
  rw [wordAfter, load64_congr fun b hb =>
    storeWords_of_notMem hlen (Set.disjoint_left.mp h.disjoint hb), load64_store64]

/-- **Frame rule** for blocks. -/
theorem blockAfter_of_apart {fields : List (BlockField β)}
    (h : SpansApart base n dst (8 * ws.length))
    (hfields : ∀ f ∈ fields, 0 < f.size ∧ f.offset + f.size ≤ n) (b : β) :
    blockAfter dst ws fields base b = b := by
  induction fields with
  | nil => rfl
  | cons f fields ih =>
    obtain ⟨hsize, hfits⟩ := hfields f List.mem_cons_self
    rw [blockAfter, List.foldl_cons, if_pos (h.part hsize hfits)]
    exact ih fun f' hf' => hfields f' (List.mem_cons_of_mem f hf')

end MiniEuler.Library
