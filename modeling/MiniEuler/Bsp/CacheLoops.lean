import MiniEuler.Bsp.CacheAsm

/-! What the loops of `cache_asm.S` do: which maintenance instructions they give, in which order,
and which registers they keep. -/

namespace MiniEuler
open Library

/-! ## Flags -/

/-- Signed comparison, for numbers that are small. -/
theorem Flags.sub_ge {a b : BitVec 64} (ha : a.toNat < 2 ^ 63) (hb : b.toNat < 2 ^ 63) :
    ((Flags.sub a b).n == (Flags.sub a b).v) = decide (b.toNat ≤ a.toNat) := by
  have hov : BitVec.ssubOverflow a b = false := by
    rw [BitVec.ssubOverflow, BitVec.toInt_eq_toNat_of_lt (by omega),
      BitVec.toInt_eq_toNat_of_lt (by omega)]
    simp
    omega
  rw [Flags.sub, hov, BitVec.msb_eq_decide, BitVec.toNat_sub]
  by_cases h : b.toNat ≤ a.toNat
  · have hlt : (2 ^ 64 - b.toNat + a.toNat) % 2 ^ 64 < 2 ^ 63 := by omega
    simp [h]
    omega
  · have hge : 2 ^ 63 ≤ (2 ^ 64 - b.toNat + a.toNat) % 2 ^ 64 := by omega
    simp [h]
    omega

/-! ## What the code keeps -/

@[simp] theorem CacheCore.set_x (s : CacheCore) (d : Fin 31) (v : BitVec 64) :
    (s.set d v).x = Function.update s.x d v := rfl

@[simp] theorem CacheCore.set_events (s : CacheCore) (d : Fin 31) (v : BitVec 64) :
    (s.set d v).events = s.events := rfl

@[simp] theorem CacheCore.set_csselr (s : CacheCore) (d : Fin 31) (v : BitVec 64) :
    (s.set d v).csselr = s.csselr := rfl

@[simp] theorem CacheCore.set_selected (s : CacheCore) (d : Fin 31) (v : BitVec 64) :
    (s.set d v).selected = s.selected := rfl

/-- From `s₀` to `s`, the code has written no registers but `regs`, and given `evs`. -/
structure Since (regs : List (Fin 31)) (evs : List CacheEvent) (s₀ s : CacheCore) : Prop where
  x : ∀ r ∉ regs, s.x r = s₀.x r
  events : s.events = s₀.events ++ evs

/-- The selection of CCSIDR has been left alone too. -/
structure SameSelect (s₀ s : CacheCore) : Prop where
  csselr : s.csselr = s₀.csselr
  selected : s.selected = s₀.selected

theorem Since.refl (regs : List (Fin 31)) (s : CacheCore) : Since regs [] s s :=
  ⟨fun _ _ => rfl, (List.append_nil _).symm⟩

theorem Since.trans {regs regs' : List (Fin 31)} {evs evs' : List CacheEvent}
    {s₀ s s' : CacheCore} (h : Since regs evs s₀ s) (h' : Since regs' evs' s s')
    (hsub : ∀ r ∈ regs', r ∈ regs) : Since regs (evs ++ evs') s₀ s' :=
  ⟨fun r hr => (h'.x r fun hm => hr (hsub r hm)).trans (h.x r hr), by
    rw [h'.events, h.events, List.append_assoc]⟩

theorem Since.mono {regs regs' : List (Fin 31)} {evs : List CacheEvent} {s₀ s : CacheCore}
    (h : Since regs evs s₀ s) (hsub : ∀ r ∈ regs, r ∈ regs') : Since regs' evs s₀ s :=
  ⟨fun r hr => h.x r fun hm => hr (hsub r hm), h.events⟩

/-- The instruction that the mode in `x1` asks for. -/
def dcOpOf (mode : BitVec 64) : DcOp :=
  if mode.getLsbD 1 then .csw else if mode.getLsbD 0 then .isw else .cisw

theorem cacheAsm_length : (instrsOf cacheAsm).length ≤ 2 ^ 62 := by decide

abbrev CacheLeads (H : CacheId) (base : BitVec 64) :=
  Leads (cacheIsa H) cacheAsm base

/-! ## The ways of a set -/

/-- The instruction for a way, of the set and the level that the registers say. -/
def dcEvent (s : CacheCore) (way : Nat) : CacheEvent :=
  .dc (dcOpOf (s.x 1)) (s.x 12 ||| BitVec.ofNat 64 way <<< ((s.x 5).toNat % 64) |||
    s.x 4 <<< ((s.x 2).toNat % 64))

section
variable {H : CacheId} {b : BitVec 64} {s₀ : CacheCore}

/-- `tbz` and the three branches give one instruction. -/
theorem leads_dc {P : CacheCore → Prop} {mode : BitVec 64} (hP : ∀ s, P s → s.x 1 = mode) :
    CacheLeads H b P 16 (codeAddr b 23)
      fun s => ∃ s', P s' ∧ s = s'.emit (.dc (dcOpOf mode) (s'.x 9)) := by
  have hgive : ∀ op i, dcOpOf mode = op → (instrsOf cacheAsm)[i]? = some (.data (.dc op 9)) →
      CacheLeads H b P i (codeAddr b (i + 1))
        fun s => ∃ s', P s' ∧ s = s'.emit (.dc (dcOpOf mode) (s'.x 9)) := by
    rintro _ i rfl hi s hs
    exact ⟨_, reaches_data cacheAsm_length hi, s, hs, rfl⟩
  have hbit : ∀ bit s, P s → (cacheIsa H).holds (.tbz 1 bit) s = !mode.getLsbD bit := by
    intro bit s hs
    rw [← hP s hs]
    rfl
  by_cases h1 : mode.getLsbD 1 = true
  · have hop : dcOpOf mode = .csw := if_pos h1
    have hpass := leads_passed (M := cacheIsa H) (b := b) cacheAsm_length (P := P) (i := 16)
      rfl fun s hs => by rw [hbit 1 s hs, h1]; rfl
    exact hpass.seq ((hgive _ 17 hop rfl).seq (leads_b cacheAsm_length (i := 18) rfl))
  · have htaken := leads_taken (M := cacheIsa H) (b := b) cacheAsm_length (P := P) (i := 16)
      rfl fun s hs => by rw [hbit 1 s hs]; simpa using h1
    refine htaken.seq (j := 19) ?_
    by_cases h0 : mode.getLsbD 0 = true
    · have hop : dcOpOf mode = .isw := by rw [dcOpOf, if_neg h1, if_pos h0]
      have hpass := leads_passed (M := cacheIsa H) (b := b) cacheAsm_length (P := P)
        (i := 19) rfl fun s hs => by rw [hbit 0 s hs, h0]; rfl
      exact hpass.seq ((hgive _ 20 hop rfl).seq (leads_b cacheAsm_length (i := 21) rfl))
    · have hop : dcOpOf mode = .cisw := by rw [dcOpOf, if_neg h1, if_neg h0]
      have htaken := leads_taken (M := cacheIsa H) (b := b) cacheAsm_length (P := P)
        (i := 19) rfl fun s hs => by rw [hbit 0 s hs]; simpa using h0
      exact htaken.seq (hgive _ 22 hop rfl)

/-- At `loop_way`, with way `n` to come, and the ways above it done. -/
structure WayLoop (s₀ : CacheCore) (last n : Nat) (s : CacheCore) : Prop where
  le : n ≤ last
  way : s.x 6 = BitVec.ofNat 64 n
  select : SameSelect s₀ s
  since : Since [6, 7, 9] ((List.range' (n + 1) (last - n)).reverse.map (dcEvent s₀)) s₀ s

/-- The ways from `n` on are done, and the flags are those of the last subtraction. -/
structure WayDone (s₀ : CacheCore) (last n : Nat) (s : CacheCore) : Prop where
  le : n ≤ last
  way : s.x 6 = BitVec.ofNat 64 n - 1
  flags : s.flags = .sub (BitVec.ofNat 64 n) 1
  select : SameSelect s₀ s
  since : Since [6, 7, 9] ((List.range' n (last + 1 - n)).reverse.map (dcEvent s₀)) s₀ s

theorem reverse_range'_cons {n last : Nat} (h : n ≤ last) :
    (List.range' n (last + 1 - n)).reverse = (List.range' (n + 1) (last - n)).reverse ++ [n] := by
  rw [show last + 1 - n = last - n + 1 by omega, List.range'_succ, List.reverse_cons]

theorem leads_way (n last : Nat) :
    CacheLeads H b (WayLoop s₀ last n) 12 (codeAddr b 24) (WayDone s₀ last n) := by
  have hblock : CacheLeads H b (WayLoop s₀ last n) 12 (codeAddr b 16) fun s =>
      WayLoop s₀ last n s ∧ dcEvent s₀ n = .dc (dcOpOf (s₀.x 1)) (s.x 9) := by
    refine leads_block cacheAsm_length [.lsl 7 6 5, .orr 9 12 7, .lsl 7 4 2, .orr 9 9 7] rfl
      fun s W => ?_
    have hkept := W.since.x
    refine ⟨⟨W.le, ?_, ⟨W.select.csselr, W.select.selected⟩, fun r hr => ?_, W.since.events⟩, ?_⟩
    · simpa [cacheIsa, CacheInstr.exec] using W.way
    · have h := hkept r hr
      simp only [List.mem_cons, List.not_mem_nil, or_false, not_or] at hr
      simpa [cacheIsa, CacheInstr.exec, hr] using h
    · simp [cacheIsa, CacheInstr.exec, dcEvent, W.way, hkept]
  have hmode : ∀ s, WayLoop s₀ last n s ∧ dcEvent s₀ n = .dc (dcOpOf (s₀.x 1)) (s.x 9) →
      s.x 1 = s₀.x 1 := fun s h => h.1.since.x 1 (by decide)
  have hsubs : CacheLeads H b
      (fun s => ∃ s', (WayLoop s₀ last n s' ∧ dcEvent s₀ n = .dc (dcOpOf (s₀.x 1)) (s'.x 9)) ∧
        s = s'.emit (.dc (dcOpOf (s₀.x 1)) (s'.x 9))) 23 (codeAddr b 24)
      (WayDone s₀ last n) := by
    refine leads_block cacheAsm_length [.subsImm 6 6 1] rfl ?_
    rintro _ ⟨s, ⟨W, hev⟩, rfl⟩
    refine ⟨W.le, ?_, ?_, ⟨W.select.csselr, W.select.selected⟩, fun r hr => ?_, ?_⟩
    · simp [cacheIsa, CacheInstr.exec, CacheCore.emit, W.way]
    · simp [cacheIsa, CacheInstr.exec, CacheCore.emit, W.way]
    · have h := W.since.x r hr
      simp only [List.mem_cons, List.not_mem_nil, or_false, not_or] at hr
      simpa [cacheIsa, CacheInstr.exec, CacheCore.emit, hr] using h
    · rw [reverse_range'_cons W.le, List.map_append, ← List.append_assoc, ← W.since.events]
      simp [cacheIsa, CacheInstr.exec, CacheCore.emit, hev]
  exact hblock.seq ((leads_dc hmode).seq hsubs)

/-- `b.ge` after a count has been taken down from `n`. -/
theorem holds_ge_of_sub {n : Nat} (hn : n < 2 ^ 63) {s : CacheCore}
    (h : s.flags = .sub (BitVec.ofNat 64 n) 1) : (cacheIsa H).holds .ge s = decide (1 ≤ n) := by
  have hto : (BitVec.ofNat 64 n).toNat = n := by
    rw [BitVec.toNat_ofNat, Nat.mod_eq_of_lt (by omega)]
  change (s.flags.n == s.flags.v) = _
  rw [h, Flags.sub_ge (by omega) (by decide), hto]
  rfl

theorem ofNat_succ_sub (n : Nat) : BitVec.ofNat 64 (n + 1) - 1 = BitVec.ofNat 64 n := by
  rw [BitVec.ofNat_add]
  exact BitVec.add_sub_cancel _ _

/-- **The ways of a set**, from the last one down. -/
theorem leads_ways {last : Nat} (hlast : last < 2 ^ 63) (h6 : s₀.x 6 = BitVec.ofNat 64 last) :
    CacheLeads H b (· = s₀) 12 (codeAddr b 25) fun s => SameSelect s₀ s ∧
      Since [6, 7, 9] ((List.range (last + 1)).reverse.map (dcEvent s₀)) s₀ s := by
  have hge : ∀ n s, WayDone s₀ last n s → (cacheIsa H).holds .ge s = decide (1 ≤ n) :=
    fun n s W => holds_ge_of_sub (by have := W.le; omega) W.flags
  have hround : ∀ n, CacheLeads H b (WayLoop s₀ last (n + 1)) 12 (codeAddr b 12)
      (WayLoop s₀ last n) := by
    intro n
    refine (leads_way (n + 1) last).seq ((leads_taken cacheAsm_length (i := 24) rfl
      fun s W => (hge _ s W).trans (by simp)).mono (fun _ h => h) fun s W => ?_)
    have hle := W.le
    have hcount : last + 1 - (n + 1) = last - n := by omega
    exact ⟨by omega, W.way.trans (ofNat_succ_sub n), W.select, hcount ▸ W.since⟩
  have hend : CacheLeads H b (WayLoop s₀ last 0) 12 (codeAddr b 25) fun s =>
      SameSelect s₀ s ∧
        Since [6, 7, 9] ((List.range (last + 1)).reverse.map (dcEvent s₀)) s₀ s := by
    refine (leads_way 0 last).seq ((leads_passed cacheAsm_length (i := 24) rfl
      fun s W => (hge _ s W).trans (by simp)).mono (fun _ h => h) fun s W => ⟨W.select, ?_⟩)
    rw [List.range_eq_range']
    exact W.since
  refine (leads_loop hround hend last).mono ?_ fun _ h => h
  rintro s rfl
  exact ⟨le_refl _, h6, ⟨rfl, rfl⟩, by simpa using Since.refl _ s⟩

/-! ## The sets of a level -/

/-- The instructions for set `set`. -/
def dcSetEvents (s : CacheCore) (lastWay set : Nat) : List CacheEvent :=
  (List.range (lastWay + 1)).reverse.map (dcEvent (s.set 4 (BitVec.ofNat 64 set)))

/-- At `loop_set`, with set `n` to come, and the sets above it done. -/
structure SetLoop (s₀ : CacheCore) (lastWay last n : Nat) (s : CacheCore) : Prop where
  le : n ≤ last
  set : s.x 4 = BitVec.ofNat 64 n
  select : SameSelect s₀ s
  since : Since [4, 6, 7, 9]
    ((List.range' (n + 1) (last - n)).reverse.flatMap (dcSetEvents s₀ lastWay)) s₀ s

structure SetDone (s₀ : CacheCore) (lastWay last n : Nat) (s : CacheCore) : Prop where
  le : n ≤ last
  set : s.x 4 = BitVec.ofNat 64 n - 1
  flags : s.flags = .sub (BitVec.ofNat 64 n) 1
  select : SameSelect s₀ s
  since : Since [4, 6, 7, 9]
    ((List.range' n (last + 1 - n)).reverse.flatMap (dcSetEvents s₀ lastWay)) s₀ s

theorem leads_set {lastWay : Nat} (hway : lastWay < 2 ^ 63)
    (h3 : s₀.x 3 = BitVec.ofNat 64 lastWay) (n last : Nat) :
    CacheLeads H b (SetLoop s₀ lastWay last n) 11 (codeAddr b 26)
      (SetDone s₀ lastWay last n) := by
  intro s S
  have hkept := S.since.x
  have hmov := reaches_data (M := cacheIsa H) (b := b) (s := s) cacheAsm_length (i := 11)
    (d := .mov 6 3) rfl
  have h6 : (s.set 6 (s.x 3)).x 6 = BitVec.ofNat 64 lastWay := by
    simpa [h3] using hkept 3 (by decide)
  obtain ⟨s', hways, hsel, W⟩ := leads_ways (H := H) (b := b) hway h6 _ rfl
  have hevents : dcEvent (s.set 6 (s.x 3)) = dcEvent (s₀.set 4 (BitVec.ofNat 64 n)) := by
    funext way
    simp [dcEvent, S.set, hkept]
  have h4 : s'.x 4 = BitVec.ofNat 64 n := by
    simpa [S.set] using W.x 4 (by decide)
  have hsubs := reaches_data (M := cacheIsa H) (b := b) (s := s') cacheAsm_length (i := 25)
    (d := .subsImm 4 4 1) rfl
  refine ⟨_, (hmov.trans hways).trans hsubs, S.le, ?_, ?_, ?_, ?_⟩
  · simp [cacheIsa, CacheInstr.exec, h4]
  · simp [cacheIsa, CacheInstr.exec, h4]
  · exact ⟨hsel.csselr.trans S.select.csselr, hsel.selected.trans S.select.selected⟩
  · rw [reverse_range'_cons S.le, List.flatMap_append, List.flatMap_singleton]
    refine ⟨fun r hr => ?_, ?_⟩
    · have h := hkept r hr
      have h' := W.x r (by
        simp only [List.mem_cons, List.not_mem_nil, or_false, not_or] at hr ⊢
        exact hr.2)
      simp only [List.mem_cons, List.not_mem_nil, or_false, not_or] at hr
      simpa [cacheIsa, CacheInstr.exec, hr, h] using h'
    · have h := W.events
      rw [hevents, CacheCore.set_events, S.since.events, List.append_assoc] at h
      exact h

/-- **The sets of a level**, from the last one down. -/
theorem leads_sets {lastWay last : Nat} (hway : lastWay < 2 ^ 63) (hlast : last < 2 ^ 63)
    (h3 : s₀.x 3 = BitVec.ofNat 64 lastWay) (h4 : s₀.x 4 = BitVec.ofNat 64 last) :
    CacheLeads H b (· = s₀) 11 (codeAddr b 27) fun s => SameSelect s₀ s ∧
      Since [4, 6, 7, 9] ((List.range (last + 1)).reverse.flatMap (dcSetEvents s₀ lastWay))
        s₀ s := by
  have hge : ∀ n s, SetDone s₀ lastWay last n s →
      (cacheIsa H).holds .ge s = decide (1 ≤ n) := fun n s S =>
    holds_ge_of_sub (by have := S.le; omega) S.flags
  have hround : ∀ n, CacheLeads H b (SetLoop s₀ lastWay last (n + 1)) 11 (codeAddr b 11)
      (SetLoop s₀ lastWay last n) := by
    intro n
    refine (leads_set hway h3 (n + 1) last).seq ((leads_taken cacheAsm_length (i := 26) rfl
      fun s S => (hge _ s S).trans (by simp)).mono (fun _ h => h) fun s S => ?_)
    have hle := S.le
    have hcount : last + 1 - (n + 1) = last - n := by omega
    exact ⟨by omega, S.set.trans (ofNat_succ_sub n), S.select, hcount ▸ S.since⟩
  have hend : CacheLeads H b (SetLoop s₀ lastWay last 0) 11 (codeAddr b 27) fun s =>
      SameSelect s₀ s ∧ Since [4, 6, 7, 9]
        ((List.range (last + 1)).reverse.flatMap (dcSetEvents s₀ lastWay)) s₀ s := by
    refine (leads_set hway h3 0 last).seq ((leads_passed cacheAsm_length (i := 26) rfl
      fun s S => (hge _ s S).trans (by simp)).mono (fun _ h => h) fun s S => ⟨S.select, ?_⟩)
    rw [List.range_eq_range']
    exact S.since
  refine (leads_loop hround hend last).mono ?_ fun _ h => h
  rintro s rfl
  exact ⟨le_refl _, h4, ⟨rfl, rfl⟩, by simpa using Since.refl _ s⟩

end

end MiniEuler
