import Sv6Fs.Shrink

/-! # `itrunc` on a tree without holes

`itrunc`'s loops stop at the first empty slot of a tier, and its indirect stage leaves the
`switch` when there is no indirect block; on a tree with holes it strands or leaks blocks
(`itrunc_assertion_fires`, `itrunc_leaks_block`). On a tree without holes (`Dense`: in each
tier no slot holds a block after an empty one, and no doubly-indirect tree hangs without an
indirect block) it does what it is for.

* `itrunc_empties`: `itrunc(ip, offset, trans)` empties exactly the slots whose first logical
  block (`Slot.first`) is at or past `truncFrom offset`, records each block it takes out as
  a delayed free, and sets the size. `truncFrom offset` is `BLOCKROUNDUP(offset)`, or 0 when
  that is `MAXFILE`: there the three range tests fail and `start_stage` and `start_index`
  keep their initial values, `DIRECT_BLOCKS` and 0.
-/

namespace Sv6Fs

/-! ## Trees without holes -/

/-- Among `f i, ..., f (n - 1)`, no nonzero value after a zero one. -/
def NoHole (f : Nat → Nat) (i n : Nat) : Prop :=
  ∀ k, i ≤ k → k + 1 < n → f (k + 1) ≠ 0 → f k ≠ 0

namespace NoHole

variable {f g : Nat → Nat} {i j n : Nat}

/-- From a zero value on, all are zero. -/
theorem zero_from (h : NoHole f i n) (hij : i ≤ j) (h0 : f j = 0) :
    ∀ k, j ≤ k → k < n → f k = 0 := by
  intro k hjk hkn
  induction k, hjk using Nat.le_induction with
  | base => exact h0
  | succ k hjk ih =>
    by_contra hk
    exact h k (by omega) hkn hk (ih (by omega))

theorem mono (h : NoHole f i n) (hij : i ≤ j) : NoHole f j n :=
  fun k hk => h k (le_trans hij hk)

theorem congr (h : NoHole f i n) (hfg : ∀ k, i ≤ k → k < n → g k = f k) : NoHole g i n :=
  fun k hk hkn hg => by
    rw [hfg k hk (by omega)]
    exact h k hk hkn (by rwa [← hfg (k + 1) (by omega) hkn])

end NoHole

/-- A block tree with no holes: in each tier no slot holds a block after an empty one, and a
doubly-indirect tree hangs only beside an indirect block. -/
structure Dense (G : Geometry) (ip : Inode) (data : Nat → Block) : Prop where
  direct : NoHole ip.addrs 0 G.ndirect
  entries : ∀ π : Slot, π.Valid G → π.isPtr →
    NoHole (fun k => slotVal G ip data (π.child k)) 0 G.nindirect
  roots : ip.addrs G.ndirect = 0 → ip.addrs (G.ndirect + 1) = 0

/-- The first logical block under slot `σ`: its own for a data slot, the first one the
blocks under it map for a pointer slot. -/
def Slot.first (G : Geometry) : Slot → Nat
  | .direct k => k
  | .indRoot => G.ndirect
  | .ind k => G.ndirect + k
  | .dblRoot => G.ndirect + G.nindirect
  | .dbl1 k => G.ndirect + G.nindirect + k * G.nindirect
  | .dbl2 k j => G.ndirect + G.nindirect + k * G.nindirect + j

/-- The slots of the doubly-indirect tree at or past position `p` of its tier: the entries
`k * NINDIRECT + j ≥ p` of the second-level blocks, and the second-level blocks whose first
entry is. -/
def dblFrom (G : Geometry) (p : Nat) : Slot → Prop
  | .dbl2 k j => p ≤ k * G.nindirect + j
  | .dbl1 k => p ≤ k * G.nindirect
  | _ => False

/-- The first logical block `itrunc(ip, offset, trans)` frees: `BLOCKROUNDUP(offset)`, or 0
when that is past the last tier. -/
def truncFrom (G : Geometry) (offset : Nat) : Nat :=
  if blockRoundup G.bsize offset < G.maxfile then blockRoundup G.bsize offset else 0

section Tiers

variable {G : Geometry}

theorem Slot.child_valid {π : Slot} (hπ : π.Valid G) (hp : π.isPtr) {k : Nat} :
    (π.child k).Valid G ↔ k < G.nindirect := by
  cases π <;> simp_all [Slot.child, Slot.Valid, Slot.isPtr]

theorem Slot.first_dataSlot (bn : Nat) : (dataSlot G bn).first G = bn := by
  unfold dataSlot
  split
  · rfl
  split
  · simp only [Slot.first]; omega
  · simp only [Slot.first]
    have := Nat.div_add_mod' (bn - G.ndirect - G.nindirect) G.nindirect
    omega

/-- Under an empty pointer slot every slot is empty. -/
theorem slotVal_child_of_zero {ip : Inode} {data : Nat → Block} {π : Slot} (hp : π.isPtr)
    (h0 : slotVal G ip data π = 0) (k : Nat) : slotVal G ip data (π.child k) = 0 := by
  rw [slotVal_child G hp, h0]
  simp [entryAt]

/-- `ap[k]` in the block of pointer slot `π`, read through the cache, is the slot under it. -/
theorem Ctx.entry_child {c : Ctx} {π : Slot} (hp : π.isPtr) {r : Nat}
    (hr : slotVal G c.ip c.fs.buf.data π = r) (hr0 : r ≠ 0) (k : Nat) :
    c.entry r k = slotVal G c.ip c.fs.buf.data (π.child k) := by
  rw [slotVal_child G hp, hr, entryAt, if_neg hr0, Ctx.entry]

/-- Positions in the doubly-indirect tier, entry `b` of block `i` against entry `j` of
block `k`. -/
theorem pos_le_iff {N i b k j : Nat} (hb : b < N) (hj : j < N) :
    i * N + b ≤ k * N + j ↔ i < k ∨ i = k ∧ b ≤ j := by
  rcases lt_trichotomy i k with h | rfl | h
  · have : (i + 1) * N ≤ k * N := Nat.mul_le_mul_right N h
    rw [Nat.succ_mul] at this
    omega
  · omega
  · have : (k + 1) * N ≤ i * N := Nat.mul_le_mul_right N h
    rw [Nat.succ_mul] at this
    omega

/-- The doubly-indirect slots from entry `b` of second-level block `i` on: the entries of
block `i` from `b` on, block `i` itself when `b = 0`, and all from block `i + 1` on. -/
theorem dblFrom_iff {i b : Nat} (hb : b < G.nindirect) {τ : Slot} (hτ : τ.Valid G) :
    dblFrom G (i * G.nindirect + b) τ ↔
      ((∃ j, τ = .dbl2 i j ∧ b ≤ j) ∨ (τ = .dbl1 i ∧ b = 0)) ∨
        dblFrom G ((i + 1) * G.nindirect) τ := by
  have hN : 0 < G.nindirect := by omega
  cases τ with
  | dbl2 k j =>
    obtain ⟨-, hj⟩ : k < G.nindirect ∧ j < G.nindirect := hτ
    have h₁ := pos_le_iff (i := i) (k := k) hb hj
    have h₂ := pos_le_iff (i := i + 1) (k := k) hN hj
    rw [Nat.add_zero] at h₂
    simp only [dblFrom, h₁, h₂]
    simp [and_assoc]
    omega
  | dbl1 k =>
    have h₁ := pos_le_iff (i := i) (k := k) hb hN
    have h₂ := pos_le_iff (i := i + 1) (k := k) hN hN
    simp only [Nat.add_zero] at h₁ h₂
    simp only [dblFrom, h₁, h₂]
    simp [and_assoc]
    omega
  | _ => simp [dblFrom]

/-- Under an empty doubly-indirect root every slot of its tree is empty. -/
theorem slotVal_dbl_of_zero {ip : Inode} {data : Nat → Block}
    (h0 : slotVal G ip data .dblRoot = 0) {p : Nat} {τ : Slot}
    (hτ : dblFrom G p τ ∨ τ = .dblRoot) : slotVal G ip data τ = 0 := by
  rcases hτ with hτ | rfl
  · cases τ with
    | dbl2 k j =>
      exact slotVal_child_of_zero (π := .dbl1 k) rfl (slotVal_child_of_zero (π := .dblRoot) rfl h0 k) j
    | dbl1 k => exact slotVal_child_of_zero (π := .dblRoot) rfl h0 k
    | _ => exact hτ.elim
  · exact h0

/-- Along the entries of a pointer slot the first logical block grows. -/
theorem Slot.first_child_le {π : Slot} (hp : π.isPtr) (k : Nat) :
    (π.child k).first G ≤ (π.child (k + 1)).first G := by
  cases π <;> simp_all [Slot.child, Slot.first, Slot.isPtr, Nat.succ_mul]

/-- A tree with no indirect block and no doubly-indirect root, whose direct slots have no
hole, has no holes. -/
theorem Dense.of_direct {ip : Inode} {data : Nat → Block} (hd : NoHole ip.addrs 0 G.ndirect)
    (h₁ : ip.addrs G.ndirect = 0) (h₂ : ip.addrs (G.ndirect + 1) = 0) : Dense G ip data where
  direct := hd
  entries π _ hp := by
    have h0 : slotVal G ip data π = 0 := by
      cases π with
      | indRoot => exact h₁
      | dblRoot => exact h₂
      | dbl1 j => exact slotVal_child_of_zero (π := .dblRoot) rfl h₂ j
      | _ => simp [Slot.isPtr] at hp
    exact fun k _ _ h => absurd (slotVal_child_of_zero hp h0 (k + 1)) h
  roots _ := h₂

/-- Density sees only the inode's addresses. -/
theorem Dense.of_addrs {ip ip' : Inode} {data : Nat → Block} (hd : Dense G ip data)
    (h : ip'.addrs = ip.addrs) : Dense G ip' data where
  direct := h ▸ hd.direct
  entries π hπ hp := by simpa only [slotVal_of_addrs G h] using hd.entries π hπ hp
  roots := h ▸ hd.roots

end Tiers

/-! ## The loops -/

section Loops

variable {G : Geometry}

/-- The direct stage from slot `i` on empties every direct slot from `i` on, when the slots
from `i` on have no hole. -/
theorem freeDirect_empties (n : Nat) : ∀ (i : Nat) (c : Ctx), i + n = G.ndirect →
    NoHole c.ip.addrs i G.ndirect →
    ∃ c', freeDirect n i c = .ok () c' ∧ Empties G (fun τ => ∃ k, τ = .direct k ∧ i ≤ k) c c' := by
  induction n with
  | zero =>
    intro i c hn _
    refine ⟨c, rfl, Empties.of_empty _ fun τ hτ ⟨k, he, hk⟩ => ?_⟩
    subst he
    simp only [Slot.Valid] at hτ
    omega
  | succ n ih =>
    intro i c hn hd
    by_cases h : c.ip.addrs i = 0
    · refine ⟨c, freeDirect_stop h _, Empties.of_empty _ fun τ hτ ⟨k, he, hk⟩ => ?_⟩
      subst he
      exact hd.zero_from le_rfl h k hk hτ
    have hstep := Empties.clearTop (G := G) (c := c) (σ := .direct i)
      (show i < G.ndirect by omega) rfl h (by simp [Slot.isPtr])
    obtain ⟨c', he, hc'⟩ := ih (i + 1) ⟨c.ip.setAddr i 0, (c.delayFree (c.ip.addrs i)).fs⟩
      (by omega) ((hd.mono (Nat.le_succ i)).congr
        fun k hk _ => by simp [Function.update_noteq (show k ≠ i by omega)])
    refine ⟨c', by simpa [freeDirect, h] using he, (hstep.trans hc').congr fun τ _ => ?_⟩
    constructor
    · rintro (rfl | ⟨k, rfl, hk⟩)
      · exact ⟨i, rfl, le_rfl⟩
      · exact ⟨k, rfl, by omega⟩
    · rintro ⟨k, rfl, hk⟩
      rcases Nat.eq_or_lt_of_le hk with rfl | hk
      · exact .inl rfl
      · exact .inr ⟨k, rfl, hk⟩

/-- The loop over the entries of the block `r` of pointer slot `ρ`, whose entries are data
blocks, from entry `i` on: it empties every slot under `ρ` from `i` on, when those have no
hole. -/
theorem freeEntries_empties {ρ : Slot} (hρ : ρ.Valid G) (hp : ρ.isPtr)
    (hleaf : ∀ j, (ρ.child j).isPtr = false) {r : Nat} (hr0 : r ≠ 0) (n : Nat) :
    ∀ (i : Nat) (c : Ctx), Wf G c → slotVal G c.ip c.fs.buf.data ρ = r → i + n = G.nindirect →
      NoHole (fun k => slotVal G c.ip c.fs.buf.data (ρ.child k)) i G.nindirect →
      ∃ c', freeEntries r n i c = .ok () c' ∧
        Empties G (fun τ => ∃ k, τ = ρ.child k ∧ i ≤ k) c c' := by
  induction n with
  | zero =>
    intro i c _ _ hn _
    refine ⟨c, rfl, Empties.of_empty _ fun τ hτ ⟨k, he, hk⟩ => ?_⟩
    subst he
    have := (Slot.child_valid hρ hp).1 hτ
    omega
  | succ n ih =>
    intro i c hw hr hn hd
    have he := Ctx.entry_child (G := G) hp hr hr0 i
    by_cases h : c.entry r i = 0
    · refine ⟨c, freeEntries_stop h _, Empties.of_empty _ fun τ hτ ⟨k, he', hk⟩ => ?_⟩
      subst he'
      exact hd.zero_from le_rfl (he ▸ h) k hk ((Slot.child_valid hρ hp).1 hτ)
    have hstep := Empties.clearEntry hw.inj hρ hp ((Slot.child_valid hρ hp).2 (by omega)) hr hr0 h
      fun hl => absurd hl (by rw [hleaf]; decide)
    have hkeep : ∀ k, k ≠ i → (ρ.child k).Valid G → slotVal G _ _ (ρ.child k) = _ :=
      fun k hk hv => hstep.slot_keep hv fun e => hk (Slot.child_inj hp hp e).2
    obtain ⟨c', he', hc'⟩ := ih (i + 1) _ (hstep.wf hw)
      ((hstep.slot_keep hρ fun e => Slot.child_ne_self hp i e.symm).trans hr) (by omega)
      ((hd.mono (Nat.le_succ i)).congr fun k hk hkn =>
        hkeep k (by omega) ((Slot.child_valid hρ hp).2 hkn))
    refine ⟨c', (freeEntries_succ h n).trans he', (hstep.trans hc').congr fun τ _ => ?_⟩
    constructor
    · rintro (rfl | ⟨k, rfl, hk⟩)
      · exact ⟨i, rfl, le_rfl⟩
      · exact ⟨k, rfl, by omega⟩
    · rintro ⟨k, rfl, hk⟩
      rcases Nat.eq_or_lt_of_le hk with rfl | hk
      · exact .inl rfl
      · exact .inr ⟨k, rfl, hk⟩

/-- The indirect stage from entry `start`: with no indirect block it leaves the `switch`;
otherwise it empties the indirect block's entries from `start` on, and the indirect block
itself when `start` is 0. -/
theorem truncIndirect_empties {c : Ctx} (hw : Wf G c) {start : Nat} (hs : start ≤ G.nindirect)
    (hd : NoHole (fun k => slotVal G c.ip c.fs.buf.data (.ind k)) 0 G.nindirect) :
    ∃ c', truncIndirect G start c = .ok (c.ip.addrs G.ndirect != 0) c' ∧
      Empties G (fun τ => (∃ k, τ = .ind k ∧ start ≤ k) ∨ (τ = .indRoot ∧ start = 0)) c c' := by
  by_cases h : c.ip.addrs G.ndirect = 0
  · refine ⟨c, by simp [truncIndirect, h], Empties.of_empty _ fun τ _ hA => ?_⟩
    rcases hA with ⟨k, rfl, -⟩ | ⟨rfl, -⟩ <;> simp [slotVal, entryAt, h]
  obtain ⟨c₁, h₁, hc₁⟩ := freeEntries_empties (G := G) (ρ := .indRoot) trivial rfl (fun _ => rfl) h
    (G.nindirect - start) start c hw rfl (by omega) (hd.mono (Nat.zero_le _))
  have hroot : c₁.ip.addrs G.ndirect = c.ip.addrs G.ndirect :=
    hc₁.slot_keep (τ := .indRoot) trivial fun ⟨k, e, _⟩ => by cases e
  have hb : (c.ip.addrs G.ndirect != 0) = true := by simp [h]
  rw [hb]
  by_cases hs0 : start = 0
  · subst hs0
    rw [Nat.sub_zero] at h₁
    have hstep := Empties.clearTop (G := G) (c := c₁) (σ := .indRoot) trivial rfl (hroot ▸ h)
      fun _ j hj => hc₁.empty _ hj ⟨j, rfl, Nat.zero_le j⟩
    refine ⟨_, by simp [truncIndirect, h, h₁, hroot], (hc₁.trans hstep).congr fun τ _ => ?_⟩
    constructor
    · rintro (⟨k, rfl, -⟩ | rfl)
      · exact .inl ⟨k, rfl, Nat.zero_le k⟩
      · exact .inr ⟨rfl, rfl⟩
    · rintro (⟨k, rfl, -⟩ | ⟨rfl, -⟩)
      · exact .inl ⟨k, rfl, Nat.zero_le k⟩
      · exact .inr rfl
  · refine ⟨c₁.logBlock (c.ip.addrs G.ndirect), by simp [truncIndirect, h, h₁, hs0, logBlock],
      (hc₁.trans (Empties.logBlock _ _)).congr fun τ _ => ?_⟩
    constructor
    · rintro (⟨k, rfl, hk⟩ | h)
      exacts [.inl ⟨k, rfl, hk⟩, h.elim]
    · rintro (⟨k, rfl, hk⟩ | ⟨-, h0⟩)
      · exact .inl ⟨k, rfl, hk⟩
      · exact absurd h0 hs0

/-- One pass of the doubly-indirect stage's outer loop over a present second-level block
`b2 = ap1[i]`: the inner loop from `begin % NINDIRECT`, the log of `b2` when its entry 0 is
zero, and the free of `b2` when the pass started at its entry 0. -/
theorem freeDoubly_succ {c c₁ : Ctx} {b1 i begin : Nat} (h : c.entry b1 i ≠ 0) (n : Nat)
    (h₁ : freeEntries (c.entry b1 i) (G.nindirect - begin % G.nindirect) (begin % G.nindirect) c =
      .ok () c₁) :
    freeDoubly G b1 (n + 1) i begin c = freeDoubly G b1 n (i + 1) 0
      (let c₂ := if c₁.entry (c.entry b1 i) 0 = 0 then c₁.logBlock (c.entry b1 i) else c₁
       if begin % G.nindirect = 0 then
         (c₂.delayFree (c₂.entry b1 i)).writeBlock b1 (setWord (c₂.fs.buf.data b1) i 0)
       else c₂) := by
  simp only [freeDoubly, FsM.bind_apply, FsM.get_apply, h, if_false, h₁]
  split_ifs <;> simp [logBlock, writeWord]

/-- The outer loop of the doubly-indirect stage from second-level block `i`, its first pass
from entry `begin % NINDIRECT`: it empties every slot of the doubly-indirect tree at or past
position `i * NINDIRECT + begin % NINDIRECT`, when the second-level blocks from `i` on and
the entries of each have no hole. -/
theorem freeDoubly_empties {b1 : Nat} (hb1 : b1 ≠ 0) (n : Nat) :
    ∀ (i begin : Nat) (c : Ctx), Wf G c → c.ip.addrs (G.ndirect + 1) = b1 →
      i + n = G.nindirect →
      NoHole (fun k => slotVal G c.ip c.fs.buf.data (.dbl1 k)) i G.nindirect →
      (∀ k, i ≤ k → k < G.nindirect →
        NoHole (fun j => slotVal G c.ip c.fs.buf.data (.dbl2 k j)) 0 G.nindirect) →
      ∃ c', freeDoubly G b1 n i begin c = .ok () c' ∧
        Empties G (dblFrom G (i * G.nindirect + begin % G.nindirect)) c c' := by
  induction n with
  | zero =>
    intro i begin c _ _ hn _ _
    refine ⟨c, rfl, Empties.of_empty _ fun τ hτ hA => absurd hA ?_⟩
    -- no slot of the tier is at or past its end
    cases τ with
    | dbl2 k j =>
      obtain ⟨hk, hj⟩ : k < G.nindirect ∧ j < G.nindirect := hτ
      have : (k + 1) * G.nindirect ≤ i * G.nindirect := Nat.mul_le_mul_right _ (by omega)
      simp only [dblFrom]
      rw [Nat.succ_mul] at this
      omega
    | dbl1 k =>
      have hk : k < G.nindirect := hτ
      have : (k + 1) * G.nindirect ≤ i * G.nindirect := Nat.mul_le_mul_right _ (by omega)
      simp only [dblFrom]
      rw [Nat.succ_mul] at this
      omega
    | _ => simp [dblFrom]
  | succ n ih =>
    intro i begin c hw hb1c hn hd1 hd2
    have hroot : slotVal G c.ip c.fs.buf.data .dblRoot = b1 := hb1c
    have he := Ctx.entry_child (G := G) (π := .dblRoot) rfl hroot hb1 i
    have hiN : i < G.nindirect := by omega
    have hbN : begin % G.nindirect < G.nindirect := Nat.mod_lt _ (by omega)
    -- a slot of the tree at or past the start lies under a second-level block from `i` on
    have hpos : ∀ k j, j < G.nindirect →
        i * G.nindirect + begin % G.nindirect ≤ k * G.nindirect + j → i ≤ k := fun k j hj h => by
      rcases (pos_le_iff hbN hj).1 h with h | ⟨rfl, -⟩ <;> omega
    by_cases h : c.entry b1 i = 0
    · -- the loop stops: from block `i` on every second-level block is absent
      refine ⟨c, freeDoubly_stop h _, Empties.of_empty _ fun τ hτ hA => ?_⟩
      have hz := hd1.zero_from le_rfl (he ▸ h)
      cases τ with
      | dbl2 k j =>
        exact slotVal_child_of_zero (π := .dbl1 k) rfl (hz k (hpos k j hτ.2 hA) hτ.1) j
      | dbl1 k => exact hz k (hpos k 0 (by omega) (by simpa [dblFrom] using hA)) hτ
      | _ => exact hA.elim
    -- entry `i` holds the second-level block `b2`
    have hb2 : slotVal G c.ip c.fs.buf.data (.dbl1 i) = c.entry b1 i := he.symm
    obtain ⟨c₁, h₁, hc₁⟩ := freeEntries_empties (G := G) (ρ := .dbl1 i) hiN rfl (fun _ => rfl) h
      (G.nindirect - begin % G.nindirect) (begin % G.nindirect) c hw hb2 (by omega)
      ((hd2 i le_rfl hiN).mono (Nat.zero_le _))
    rw [freeDoubly_succ h n h₁]
    -- the log of `b2` changes no slot
    have hc₂ : Empties G (fun τ => (∃ k, τ = Slot.dbl2 i k ∧ begin % G.nindirect ≤ k))
        c (if c₁.entry (c.entry b1 i) 0 = 0 then c₁.logBlock (c.entry b1 i) else c₁) := by
      refine (hc₁.trans (?_ : Empties G (fun _ => False) _ _)).congr fun τ _ => by simp [Slot.child]
      split
      · exact Empties.logBlock _ _
      · exact Empties.of_empty _ fun _ _ h => h.elim
    generalize (if c₁.entry (c.entry b1 i) 0 = 0 then c₁.logBlock (c.entry b1 i) else c₁) = c₂ at hc₂
    have hw₂ := hc₂.wf hw
    have hr₂ : slotVal G c₂.ip c₂.fs.buf.data .dblRoot = b1 :=
      (hc₂.slot_keep (τ := .dblRoot) trivial fun ⟨_, e, _⟩ => by cases e).trans hroot
    -- the free of `b2` when the pass started at its entry 0
    have hc₃ : Empties G (fun τ => (∃ j, τ = .dbl2 i j ∧ begin % G.nindirect ≤ j) ∨
          (τ = .dbl1 i ∧ begin % G.nindirect = 0)) c
        (if begin % G.nindirect = 0 then
          (c₂.delayFree (c₂.entry b1 i)).writeBlock b1 (setWord (c₂.fs.buf.data b1) i 0)
        else c₂) := by
      split
      · have h0 : c₂.entry b1 i ≠ 0 := by
          rw [Ctx.entry_child (π := .dblRoot) rfl hr₂ hb1]
          show slotVal G c₂.ip c₂.fs.buf.data (.dbl1 i) ≠ 0
          rw [hc₂.slot_keep (τ := .dbl1 i) hiN (fun ⟨_, e, _⟩ => by cases e), hb2]
          exact h
        refine (hc₂.trans (Empties.clearEntry hw₂.inj (ρ := .dblRoot) trivial rfl hiN hr₂ hb1 h0
          fun _ j hj => hc₂.empty _ hj ⟨j, rfl, by omega⟩)).congr fun τ _ => ?_
        simp [Slot.child, *]
      · exact hc₂.congr fun τ _ => by simp [*]
    generalize (if begin % G.nindirect = 0 then
      (c₂.delayFree (c₂.entry b1 i)).writeBlock b1 (setWord (c₂.fs.buf.data b1) i 0)
      else c₂) = c₃ at hc₃
    -- the later passes
    have hkeep : ∀ τ, τ.Valid G → (∀ j, τ ≠ .dbl2 i j) → τ ≠ .dbl1 i →
        slotVal G c₃.ip c₃.fs.buf.data τ = slotVal G c.ip c.fs.buf.data τ :=
      fun τ hτ h2 h1 => hc₃.slot_keep hτ fun hA => hA.elim (fun ⟨j, e, _⟩ => h2 j e) (h1 ·.1)
    obtain ⟨c', he', hc'⟩ := ih (i + 1) 0 c₃ (hc₃.wf hw)
      ((hkeep .dblRoot trivial (fun _ e => by cases e) (by simp)).trans hroot) (by omega)
      ((hd1.mono (Nat.le_succ i)).congr fun k hk hkn =>
        hkeep (.dbl1 k) hkn (fun _ e => by cases e) (by simp; omega))
      (fun k hk hkn => (hd2 k (by omega) hkn).congr fun j _ hj =>
        hkeep (.dbl2 k j) ⟨hkn, hj⟩ (fun _ e => by simp at e; omega) (by simp))
    rw [Nat.zero_mod, Nat.add_zero] at hc'
    exact ⟨c', he', (hc₃.trans hc').congr fun τ hτ => (dblFrom_iff hbN hτ).symm⟩

/-- The doubly-indirect stage from position `start` of its tier: with no first-level block it
does nothing; otherwise it empties every slot of the doubly-indirect tree at or past `start`,
and the first-level block itself when `start` is 0. -/
theorem truncDoubly_empties {c : Ctx} (hw : Wf G c) {start : Nat}
    (hs : start ≤ G.nindirect * G.nindirect)
    (hd1 : NoHole (fun k => slotVal G c.ip c.fs.buf.data (.dbl1 k)) 0 G.nindirect)
    (hd2 : ∀ k < G.nindirect,
      NoHole (fun j => slotVal G c.ip c.fs.buf.data (.dbl2 k j)) 0 G.nindirect) :
    ∃ c', truncDoubly G start c = .ok () c' ∧
      Empties G (fun τ => dblFrom G start τ ∨ (τ = .dblRoot ∧ start = 0)) c c' := by
  have hr : slotVal G c.ip c.fs.buf.data .dblRoot = c.ip.addrs (G.ndirect + 1) := rfl
  by_cases h : c.ip.addrs (G.ndirect + 1) = 0
  · rw [h] at hr
    exact ⟨c, by simp [truncDoubly, h], Empties.of_empty _ fun τ _ hA =>
      slotVal_dbl_of_zero hr (hA.imp_right And.left)⟩
  obtain ⟨c₁, h₁, hc₁⟩ := freeDoubly_empties (G := G) h (G.nindirect - start / G.nindirect)
    (start / G.nindirect) start c hw rfl (by have := Nat.div_le_of_le_mul hs; omega)
    (hd1.mono (Nat.zero_le _)) fun k _ hk => hd2 k hk
  rw [Nat.div_add_mod'] at hc₁
  have hroot : c₁.ip.addrs (G.ndirect + 1) = c.ip.addrs (G.ndirect + 1) :=
    hc₁.slot_keep (τ := .dblRoot) trivial fun h => h
  by_cases hs0 : start = 0
  · subst hs0
    simp only [Nat.zero_div, Nat.sub_zero] at h₁
    have hstep := Empties.clearTop (G := G) (c := c₁) (σ := .dblRoot) trivial rfl (hroot ▸ h)
      fun _ j hj => hc₁.empty _ hj (Nat.zero_le _)
    exact ⟨_, by simp [truncDoubly, h, h₁, hroot], (hc₁.trans hstep).congr fun τ _ => by simp⟩
  · exact ⟨c₁.logBlock (c.ip.addrs (G.ndirect + 1)), by simp [truncDoubly, h, h₁, hs0, logBlock],
      (hc₁.trans (Empties.logBlock _ _)).congr fun τ _ => by simp [hs0]⟩

end Loops

/-! ## Density kept -/

section Density

variable {G : Geometry} {A : Slot → Prop} {c c₁ : Ctx}

/-- An emptying keeps a run of slots without holes when along the run it empties a slot only
with the next one. -/
theorem Empties.noHole (h : Empties G A c c₁) {f : Nat → Slot} {i n : Nat}
    (hv : ∀ k, k < n → (f k).Valid G) (hA : ∀ k, i ≤ k → k + 1 < n → A (f k) → A (f (k + 1)))
    (hd : NoHole (fun k => slotVal G c.ip c.fs.buf.data (f k)) i n) :
    NoHole (fun k => slotVal G c₁.ip c₁.fs.buf.data (f k)) i n := by
  intro k hik hk h1
  have hA₁ : ¬ A (f (k + 1)) := fun ha => h1 (h.empty _ (hv _ hk) ha)
  have hA₀ : ¬ A (f k) := fun ha => hA₁ (hA k hik hk ha)
  dsimp only at h1 ⊢
  rw [h.slot_keep (hv _ hk) hA₁] at h1
  rw [h.slot_keep (hv _ (by omega)) hA₀]
  exact hd k hik hk h1

/-- An emptying keeps a tree without holes when in each tier it empties a slot only with the
slots after it, and the indirect block only with the doubly-indirect root. -/
theorem Dense.of_empties (hd : Dense G c.ip c.fs.buf.data) (h : Empties G A c c₁)
    (hdir : ∀ k, k + 1 < G.ndirect → A (.direct k) → A (.direct (k + 1)))
    (hent : ∀ π : Slot, π.Valid G → π.isPtr → ∀ k, k + 1 < G.nindirect →
      A (π.child k) → A (π.child (k + 1)))
    (hroot : A .indRoot → A .dblRoot) : Dense G c₁.ip c₁.fs.buf.data where
  direct := h.noHole (f := Slot.direct) (fun _ hk => hk) (fun k _ => hdir k) hd.direct
  entries π hπ hp := h.noHole (fun _ hk => (Slot.child_valid hπ hp).2 hk)
    (fun k _ => hent π hπ hp k) (hd.entries π hπ hp)
  roots h0 := by
    by_cases hA : A .dblRoot
    · exact h.empty .dblRoot trivial hA
    have e₁ : c₁.ip.addrs G.ndirect = c.ip.addrs G.ndirect :=
      h.slot_keep (τ := .indRoot) trivial (mt hroot hA)
    have e₂ : c₁.ip.addrs (G.ndirect + 1) = c.ip.addrs (G.ndirect + 1) :=
      h.slot_keep (τ := .dblRoot) trivial hA
    rw [e₂]
    exact hd.roots (e₁ ▸ h0)

/-- Emptying the slots from logical block `B` on keeps a tree without holes. -/
theorem Dense.truncate (hd : Dense G c.ip c.fs.buf.data) {B : Nat}
    (h : Empties G (fun τ => B ≤ τ.first G) c c₁) : Dense G c₁.ip c₁.fs.buf.data :=
  hd.of_empties h (fun k _ hk => by simp only [Slot.first] at hk ⊢; omega)
    (fun _ _ hp k _ hk => le_trans hk (Slot.first_child_le hp k))
    (fun hk => by simp only [Slot.first] at hk ⊢; omega)

end Density

/-! ## The stages -/

section Stages

variable {G : Geometry} {c : Ctx}

/-- The `switch` falls through from the direct stage into the indirect stage from entry 0. -/
theorem truncStages_direct (start : Nat) :
    truncStages G (.directBlocks, start) =
      (freeDirect (G.ndirect - start) start >>= fun _ => truncStages G (.indirectBlocks, 0)) :=
  rfl

/-- The doubly-indirect stage from position `start` of its tier empties every slot from
logical block `NDIRECT + NINDIRECT + start` on. -/
theorem truncStages_dbl_empties (hw : Wf G c) (hd : Dense G c.ip c.fs.buf.data) {start : Nat}
    (hs : start < G.nindirect * G.nindirect) :
    ∃ c', truncStages G (.dblIndirectBlocks, start) c = .ok () c' ∧
      Empties G (fun τ => G.ndirect + G.nindirect + start ≤ τ.first G) c c' := by
  have hN : 0 < G.nindirect := Nat.pos_of_ne_zero fun h => by simp [h] at hs
  obtain ⟨c', h', hc'⟩ := truncDoubly_empties hw hs.le (hd.entries .dblRoot trivial rfl)
    fun k hk => hd.entries (.dbl1 k) hk rfl
  refine ⟨c', h', hc'.congr fun τ hτ => ?_⟩
  cases τ <;> simp [dblFrom, Slot.first, Slot.Valid] at hτ ⊢ <;> omega

/-- The indirect stage from entry `start`, and the doubly-indirect stage after it unless the
indirect stage leaves the `switch`: on a tree without holes they empty every slot from
logical block `NDIRECT + start` on. The `switch` is left only when there is no indirect
block, and then there is no doubly-indirect tree either. -/
theorem truncStages_indirect_empties (hw : Wf G c) (hd : Dense G c.ip c.fs.buf.data)
    {start : Nat} (hs : start ≤ G.nindirect) :
    ∃ c', truncStages G (.indirectBlocks, start) c = .ok () c' ∧
      Empties G (fun τ => G.ndirect + start ≤ τ.first G) c c' := by
  obtain ⟨c₁, h₁, hc₁⟩ := truncIndirect_empties hw hs (hd.entries .indRoot trivial rfl)
  have hA : ∀ τ : Slot, τ.Valid G → (G.ndirect + start ≤ τ.first G ↔
      ((∃ k, τ = .ind k ∧ start ≤ k) ∨ (τ = .indRoot ∧ start = 0)) ∨
        (dblFrom G 0 τ ∨ τ = .dblRoot ∧ 0 = 0)) := fun τ hτ => by
    cases τ <;> simp [dblFrom, Slot.first, Slot.Valid] at hτ ⊢ <;> omega
  by_cases h : c.ip.addrs G.ndirect = 0
  · have h0 : slotVal G c.ip c.fs.buf.data .dblRoot = 0 := hd.roots h
    exact ⟨c₁, by simp [truncStages, h₁, h], (hc₁.trans (Empties.of_empty _ fun τ hτ hB =>
      hc₁.slot_zero hτ (slotVal_dbl_of_zero h0 (hB.imp_right And.left)))).congr
        fun τ hτ => (hA τ hτ).symm⟩
  -- the doubly-indirect tree is as before the indirect stage
  have hkeep : ∀ τ, dblFrom G 0 τ → ¬ ((∃ k, τ = .ind k ∧ start ≤ k) ∨ (τ = .indRoot ∧ start = 0)) :=
    fun τ hτ hB => by rcases hB with ⟨k, rfl, -⟩ | ⟨rfl, -⟩ <;> exact hτ
  obtain ⟨c₂, h₂, hc₂⟩ := truncDoubly_empties (hc₁.wf hw) (Nat.zero_le _)
    (hc₁.noHole (f := Slot.dbl1) (fun _ hk => hk)
      (fun k _ _ hB => (hkeep (.dbl1 k) (Nat.zero_le (k * G.nindirect)) hB).elim) (hd.entries .dblRoot trivial rfl))
    fun k hk => hc₁.noHole (f := Slot.dbl2 k) (fun _ hj => ⟨hk, hj⟩)
      (fun j _ _ hB => (hkeep (.dbl2 k j) (Nat.zero_le (k * G.nindirect + j)) hB).elim) (hd.entries (.dbl1 k) hk rfl)
  exact ⟨c₂, by simp [truncStages, h₁, h, h₂], (hc₁.trans hc₂).congr fun τ hτ => (hA τ hτ).symm⟩

/-- The direct stage from slot `start`, and the stages it falls through to: on a tree
without holes they empty every slot from logical block `start` on. -/
theorem truncStages_direct_empties (hw : Wf G c) (hd : Dense G c.ip c.fs.buf.data)
    {start : Nat} (hs : start ≤ G.ndirect) :
    ∃ c', truncStages G (.directBlocks, start) c = .ok () c' ∧
      Empties G (fun τ => start ≤ τ.first G) c c' := by
  obtain ⟨c₁, h₁, hc₁⟩ := freeDirect_empties (G := G) (G.ndirect - start) start c (by omega)
    (hd.direct.mono (Nat.zero_le _))
  have hd₁ : Dense G c₁.ip c₁.fs.buf.data := hd.of_empties hc₁
    (fun k _ ⟨_, e, hj⟩ => ⟨k + 1, rfl, by cases e; omega⟩)
    (fun π _ hp k _ ⟨_, e, _⟩ => by cases π <;> simp_all [Slot.child, Slot.isPtr])
    fun ⟨_, e, _⟩ => by cases e
  obtain ⟨c₂, h₂, hc₂⟩ := truncStages_indirect_empties (hc₁.wf hw) hd₁ (Nat.zero_le G.nindirect)
  refine ⟨c₂, by rw [truncStages_direct, FsM.bind_apply, h₁]; exact h₂,
    (hc₁.trans hc₂).congr fun τ hτ => ?_⟩
  cases τ <;> simp [Slot.first, Slot.Valid] at hτ ⊢ <;> omega

/-- The stages from logical block `bn`, as `truncStart` picks the first: on a tree without
holes they empty every slot from `bn` on, or every slot when `bn` is past the last tier. -/
theorem truncStages_empties (hw : Wf G c) (hd : Dense G c.ip c.fs.buf.data) (bn : Nat) :
    ∃ c', truncStages G (truncStart G bn) c = .ok () c' ∧
      Empties G (fun τ => (if bn < G.maxfile then bn else 0) ≤ τ.first G) c c' := by
  unfold truncStart Geometry.maxfile
  split_ifs with h₁ h₂ h₃ h₄ h₅ <;> first
    | omega
    | exact truncStages_direct_empties hw hd h₁.le
    | exact (truncStages_indirect_empties hw hd (by omega)).imp fun _ ⟨e, hc⟩ =>
        ⟨e, hc.congr fun τ _ => by omega⟩
    | exact (truncStages_dbl_empties hw hd (by omega)).imp fun _ ⟨e, hc⟩ =>
        ⟨e, hc.congr fun τ _ => by omega⟩
    | exact truncStages_direct_empties hw hd (Nat.zero_le _)

end Stages

/-! ## `itrunc` -/

section Itrunc

variable {G : Geometry} {c : Ctx}

/-- `itrunc(ip, offset, trans)` below the size and within the tiers, on a tree without holes:
it empties exactly the slots from logical block `truncFrom offset` on, records each block it
takes out as a delayed free, keeps every other slot and the free bitmap, and sets the size to
`offset`; the closing assertion of a truncation to 0 holds. -/
theorem itrunc_empties (hw : Wf G c) (hd : Dense G c.ip c.fs.buf.data) {offset : Nat}
    (hsize : offset < c.ip.size) (hoff : offset < G.maxfile * G.bsize) :
    ∃ c₁, itrunc G offset c = .ok () { c₁ with ip := { c₁.ip with size := offset } } ∧
      Empties G (fun τ => truncFrom G offset ≤ τ.first G) c c₁ := by
  obtain ⟨c₁, h₁, hc₁⟩ := truncStages_empties hw hd (blockRoundup G.bsize offset)
  have hskip : ¬ (c.ip.size ≤ offset ∨ G.maxfile * G.bsize ≤ offset) := by omega
  -- a truncation to 0 empties the top slots, so the assertion holds
  have hall : offset = 0 → ∀ i < G.ndirect + 2, c₁.ip.addrs i = 0 := by
    rintro rfl i hi
    have h0 : ∀ τ : Slot, (if blockRoundup G.bsize 0 < G.maxfile then blockRoundup G.bsize 0
        else 0) ≤ τ.first G := fun τ => by simp [blockRoundup]
    rcases Nat.lt_or_ge i G.ndirect with h | h
    · exact hc₁.empty (.direct i) h (h0 _)
    · obtain rfl | rfl : i = G.ndirect ∨ i = G.ndirect + 1 := by omega
      · exact hc₁.empty .indRoot trivial (h0 _)
      · exact hc₁.empty .dblRoot trivial (h0 _)
  have hassert : ¬ (offset = 0 ∧
      ¬ (List.range (G.ndirect + 2)).all (fun i => c₁.ip.addrs i = 0)) :=
    fun ⟨h0, hne⟩ => hne (by simpa using hall h0)
  refine ⟨c₁, ?_, hc₁⟩
  simp only [itrunc, FsM.bind_apply, FsM.get_apply, hskip, if_false, FsM.pure_apply, h₁]
  rw [if_neg hassert]
  rfl

end Itrunc

end Sv6Fs
