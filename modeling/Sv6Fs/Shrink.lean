import Sv6Fs.Owned

/-! # Emptying slots of the block tree

`itrunc` only empties slots: it records the block a slot holds as a delayed free, so that the
block stays in use until the transaction commits, and stores 0 in the slot, in the inode's
addresses or in one of its indirect blocks. `Shrinks` is the dual of `Grows`, and `Empties`
adds that the slots it names end empty.

* `slotVal_clear`: one slot set to 0, seen from the top, when the slots under it are already
  empty.
* `Shrinks.clearTop`, `Shrinks.clearEntry`: `bfree(dev, x, trans, true)` followed by
  `ip->addrs[k] = 0` or `ap[i] = 0`.
* `Owned.shrink`: emptying slots of one inode keeps block ownership; a block that leaves the
  tree is a pending delayed free.
-/

namespace Sv6Fs

/-! ## One slot set to 0 -/

section Clear

variable (G : Geometry) {ip ip' : Inode} {data data' : Nat → Block}

/-- Slot `σ` set to 0, seen from the top: if the inode's addresses and the entries of the
blocks in the pointer slots change only at `σ`, to 0, and the slots under `σ` already hold
0, then `σ` holds 0 and every other slot keeps its block. -/
theorem slotVal_clear {σ : Slot}
    (htop : ∀ τ k, τ.Valid G → τ.addr G = some k → ip'.addrs k = if τ = σ then 0 else ip.addrs k)
    (hent : ∀ π, π.Valid G → π.isPtr → π ≠ σ → ∀ k, entryAt data' (slotVal G ip data π) k =
      if π.child k = σ then 0 else entryAt data (slotVal G ip data π) k)
    (hchild : σ.isPtr → ∀ k, (σ.child k).Valid G → slotVal G ip data (σ.child k) = 0)
    {τ : Slot} (hτ : τ.Valid G) :
    slotVal G ip' data' τ = if τ = σ then 0 else slotVal G ip data τ := by
  have htop' : ∀ τ k, τ.Valid G → τ.addr G = some k →
      slotVal G ip' data' τ = if τ = σ then 0 else slotVal G ip data τ := fun τ k hτ hk => by
    rw [slotVal_of_addr G hk, slotVal_of_addr G hk, htop τ k hτ hk]
  -- one level down, from the pointer slot `π` to its entry `k`
  have hstep : ∀ π k, π.Valid G → π.isPtr → (π.child k).Valid G →
      slotVal G ip' data' π = (if π = σ then 0 else slotVal G ip data π) →
      slotVal G ip' data' (π.child k) =
        if π.child k = σ then 0 else slotVal G ip data (π.child k) := by
    intro π k hπ hp hk h
    rw [slotVal_child G hp, slotVal_child G hp, h]
    by_cases hπσ : π = σ
    · subst hπσ
      rw [if_pos rfl, if_neg (Slot.child_ne_self hp k), ← slotVal_child G hp, hchild hp k hk]
      simp [entryAt]
    · rw [if_neg hπσ]
      exact hent π hπ hp hπσ k
  cases τ with
  | direct k => exact htop' _ k hτ rfl
  | indRoot => exact htop' _ _ hτ rfl
  | dblRoot => exact htop' _ _ hτ rfl
  | ind k => exact hstep .indRoot k trivial rfl hτ (htop' _ _ trivial rfl)
  | dbl1 k => exact hstep .dblRoot k trivial rfl hτ (htop' _ _ trivial rfl)
  | dbl2 k j =>
    exact hstep (.dbl1 k) j hτ.1 rfl hτ (hstep .dblRoot k trivial rfl hτ.1 (htop' _ _ trivial rfl))

/-- `ip->addrs[k] = 0` for the top slot `σ`, whose slots below are empty. -/
theorem slotVal_clearAddr {σ : Slot} {k : Nat} (hσ : σ.Valid G) (hk : σ.addr G = some k)
    (hchild : σ.isPtr → ∀ j, (σ.child j).Valid G → slotVal G ip data (σ.child j) = 0)
    {τ : Slot} (hτ : τ.Valid G) :
    slotVal G (ip.setAddr k 0) data τ = if τ = σ then 0 else slotVal G ip data τ := by
  refine slotVal_clear G (fun τ k' hτ hk' => ?_) (fun π _ hp _ j => ?_) hchild hτ
  · by_cases h : τ = σ
    · subst h; simp_all
    · rw [if_neg h, Inode.setAddr_addrs, Function.update_noteq]
      rintro rfl
      exact h (Slot.addr_inj hτ hσ hk' hk)
  · rw [if_neg fun h => by simp [← h, Slot.child_addr hp] at hk]

/-- Entry `k` of block `b` after `ap[i] = 0` in block `r`. -/
theorem entryAt_clearWord {r i b : Nat} (k : Nat) :
    entryAt (Function.update data r (setWord (data r) i 0)) b k =
      if b = r ∧ b ≠ 0 ∧ k = i then 0 else entryAt data b k := by
  unfold entryAt
  by_cases hb : b = 0
  · simp [hb]
  by_cases hbr : b = r
  · subst hbr
    rw [Function.update_same, getWord_setWord]
    by_cases hk : k = i
    · simp [hb, hk]
    · simp [hb, hk, Ne.symm hk]
  · simp [hb, hbr]

/-- `ap[i] = 0` in the indirect block `r` of pointer slot `ρ`, when the slots under entry `i`
are empty. -/
theorem slotVal_clearEntry (hinj : Inj G ip data) {ρ : Slot} (hρ : ρ.Valid G) (hp : ρ.isPtr)
    {r i : Nat} (hr : slotVal G ip data ρ = r) (hr0 : r ≠ 0)
    (hchild : (ρ.child i).isPtr → ∀ j, ((ρ.child i).child j).Valid G →
      slotVal G ip data ((ρ.child i).child j) = 0)
    {τ : Slot} (hτ : τ.Valid G) :
    slotVal G ip (Function.update data r (setWord (data r) i 0)) τ =
      if τ = ρ.child i then 0 else slotVal G ip data τ := by
  refine slotVal_clear G (fun τ k hτ hk => ?_) (fun π hπ hpπ _ k => ?_) hchild hτ
  · rw [if_neg (fun h => by simp [h, Slot.child_addr hp] at hk)]
  · rw [entryAt_clearWord]
    by_cases hc : π.child k = ρ.child i
    · obtain ⟨rfl, rfl⟩ := Slot.child_inj hpπ hp hc
      simp [hr, hr0]
    · rw [if_neg hc, if_neg]
      rintro ⟨h1, h2, rfl⟩
      exact hc (by rw [hinj π ρ hπ hρ (by rwa [h1]) (by rw [h1, hr])])

end Clear

/-! ## Shrinking the tree -/

/-- From `c` to `c'` a call only emptied slots of the inode's tree: every slot keeps its
block, or (where `A` allows) now holds 0 and its block is a recorded free; the
free-bit-vector is unchanged; bytes change only in the inode's indirect blocks; the inode
changes only in its addresses; and the recorded frees grow by blocks of `A` slots. -/
structure Shrinks (G : Geometry) (A : Slot → Prop) (c c' : Ctx) : Prop where
  slot : ∀ τ, τ.Valid G →
    slotVal G c'.ip c'.fs.buf.data τ = slotVal G c.ip c.fs.buf.data τ ∨
      A τ ∧ slotVal G c'.ip c'.fs.buf.data τ = 0 ∧
        slotVal G c.ip c.fs.buf.data τ ∈ c'.fs.tx.freeBlocks
  free : c'.fs.free = c.fs.free
  data : ∀ b, c'.fs.buf.data b ≠ c.fs.buf.data b → IsPtr G c.ip c.fs.buf.data b
  ip : ∃ a, c'.ip = { c.ip with addrs := a }
  freeBlocks : ∃ l, c'.fs.tx.freeBlocks = c.fs.tx.freeBlocks ++ l ∧
    ∀ b ∈ l, ∃ τ, τ.Valid G ∧ A τ ∧ slotVal G c.ip c.fs.buf.data τ = b ∧ b ≠ 0

namespace Shrinks

variable {G : Geometry} {A A' : Slot → Prop} {c c₁ c₂ : Ctx}

/-- A call that leaves the tree, the free-bit-vector and the recorded frees alone, such as
`add_to_transaction`. -/
theorem of_tree (A : Slot → Prop) (hip : c₁.ip = c.ip) (hbuf : c₁.fs.buf = c.fs.buf)
    (hfree : c₁.fs.free = c.fs.free) (htx : c₁.fs.tx.freeBlocks = c.fs.tx.freeBlocks) :
    Shrinks G A c c₁ where
  slot _ _ := .inl (by rw [hip, hbuf])
  free := hfree
  data _ h := absurd (by rw [hbuf]) h
  ip := ⟨c.ip.addrs, by rw [hip]⟩
  freeBlocks := ⟨[], by simp [htx], by simp⟩

theorem refl (A : Slot → Prop) (c : Ctx) : Shrinks G A c c := of_tree A rfl rfl rfl rfl

theorem mono (h : Shrinks G A c c₁) (hA : ∀ τ, τ.Valid G → A τ → A' τ) : Shrinks G A' c c₁ :=
  { h with
    slot := fun τ hτ => (h.slot τ hτ).imp_right fun ⟨ha, hr⟩ => ⟨hA τ hτ ha, hr⟩
    freeBlocks := by
      obtain ⟨l, hl, hb⟩ := h.freeBlocks
      exact ⟨l, hl, fun b hbl => (hb b hbl).imp fun τ ⟨hτ, ha, hr⟩ => ⟨hτ, hA τ hτ ha, hr⟩⟩ }

/-- A slot that holds a block afterwards held it before. -/
theorem slot_of_ne_zero (h : Shrinks G A c c₁) {τ : Slot} (hτ : τ.Valid G)
    (h0 : slotVal G c₁.ip c₁.fs.buf.data τ ≠ 0) :
    slotVal G c₁.ip c₁.fs.buf.data τ = slotVal G c.ip c.fs.buf.data τ :=
  (h.slot τ hτ).resolve_right fun ⟨_, z, _⟩ => h0 z

/-- An empty slot stays empty. -/
theorem slot_zero (h : Shrinks G A c c₁) {τ : Slot} (hτ : τ.Valid G)
    (h0 : slotVal G c.ip c.fs.buf.data τ = 0) : slotVal G c₁.ip c₁.fs.buf.data τ = 0 := by
  rcases h.slot τ hτ with e | ⟨-, z, -⟩
  · rw [e, h0]
  · exact z

/-- A slot `A` does not allow keeps its block. -/
theorem slot_keep (h : Shrinks G A c c₁) {τ : Slot} (hτ : τ.Valid G) (hA : ¬ A τ) :
    slotVal G c₁.ip c₁.fs.buf.data τ = slotVal G c.ip c.fs.buf.data τ :=
  (h.slot τ hτ).resolve_right fun ⟨ha, _⟩ => hA ha

theorem freeBlocks_subset (h : Shrinks G A c c₁) {b : Nat} (hb : b ∈ c.fs.tx.freeBlocks) :
    b ∈ c₁.fs.tx.freeBlocks := by
  obtain ⟨l, hl, -⟩ := h.freeBlocks
  rw [hl]
  exact List.mem_append_left l hb

theorem trans (h₁ : Shrinks G A c c₁) (h₂ : Shrinks G A c₁ c₂) : Shrinks G A c c₂ where
  slot τ hτ := by
    rcases h₁.slot τ hτ with e₁ | ⟨hA, z₁, f₁⟩
    · rcases h₂.slot τ hτ with e₂ | ⟨hA', z₂, f₂⟩
      · exact .inl (e₂.trans e₁)
      · exact .inr ⟨hA', z₂, e₁ ▸ f₂⟩
    · exact .inr ⟨hA, h₂.slot_zero hτ z₁, h₂.freeBlocks_subset f₁⟩
  free := h₂.free.trans h₁.free
  data b hb := by
    by_cases e : c₁.fs.buf.data b = c.fs.buf.data b
    · have hp₂ := h₂.data b (by rwa [e])
      obtain ⟨τ, hτ, hp, hτb⟩ := isPtr_slot G hp₂
      have e₁ := h₁.slot_of_ne_zero hτ (hτb ▸ hp₂.1)
      rw [← hτb, e₁]
      exact isPtr_of_slot G hτ hp (e₁ ▸ hτb ▸ hp₂.1)
    · exact h₁.data b e
  ip := by
    obtain ⟨a₁, e₁⟩ := h₁.ip
    obtain ⟨a₂, e₂⟩ := h₂.ip
    exact ⟨a₂, by rw [e₂, e₁]⟩
  freeBlocks := by
    obtain ⟨l₁, hl₁, hb₁⟩ := h₁.freeBlocks
    obtain ⟨l₂, hl₂, hb₂⟩ := h₂.freeBlocks
    refine ⟨l₁ ++ l₂, by rw [hl₂, hl₁, List.append_assoc], fun b hb => ?_⟩
    rcases List.mem_append.1 hb with hb | hb
    · exact hb₁ b hb
    · obtain ⟨τ, hτ, hA, e, hb0⟩ := hb₂ b hb
      exact ⟨τ, hτ, hA, (h₁.slot_of_ne_zero hτ (e ▸ hb0)).symm.trans e, hb0⟩

/-- Emptying slots keeps the tree sound. -/
theorem wf (h : Shrinks G A c c₁) (hc : Wf G c) : Wf G c₁ where
  inj σ τ hσ hτ h0 he := by
    have hτ0 : slotVal G c₁.ip c₁.fs.buf.data τ ≠ 0 := he ▸ h0
    rw [h.slot_of_ne_zero hσ h0, h.slot_of_ne_zero hτ hτ0] at he
    exact hc.inj σ τ hσ hτ (h.slot_of_ne_zero hσ h0 ▸ h0) he
  used τ hτ h0 := by
    rw [h.free, h.slot_of_ne_zero hτ h0]
    exact hc.used τ hτ (h.slot_of_ne_zero hτ h0 ▸ h0)
  zero := h.free ▸ hc.zero

/-- One slot `σ`, which held a block, set to 0 with its block recorded as a free. -/
theorem of_clear {σ : Slot} (hσ : σ.Valid G) (h0 : slotVal G c.ip c.fs.buf.data σ ≠ 0)
    (hS : ∀ τ, τ.Valid G → slotVal G c₁.ip c₁.fs.buf.data τ =
      if τ = σ then 0 else slotVal G c.ip c.fs.buf.data τ)
    (hfree : c₁.fs.free = c.fs.free)
    (hdata : ∀ b, c₁.fs.buf.data b ≠ c.fs.buf.data b → IsPtr G c.ip c.fs.buf.data b)
    (hip : ∃ a, c₁.ip = { c.ip with addrs := a })
    (htx : c₁.fs.tx.freeBlocks = c.fs.tx.freeBlocks ++ [slotVal G c.ip c.fs.buf.data σ]) :
    Shrinks G (· = σ) c c₁ where
  slot τ hτ := by
    rw [hS τ hτ]
    split
    · exact .inr ⟨‹_›, rfl, by rw [htx, ‹τ = σ›]; exact List.mem_append_right _ (List.mem_singleton_self _)⟩
    · exact .inl rfl
  free := hfree
  data := hdata
  ip := hip
  freeBlocks := ⟨_, htx, fun b hb => ⟨σ, hσ, rfl, (List.mem_singleton.1 hb).symm, List.mem_singleton.1 hb ▸ h0⟩⟩

end Shrinks

/-- A shrink that leaves every slot of `A` empty: it empties exactly the slots of `A`. -/
structure Empties (G : Geometry) (A : Slot → Prop) (c c' : Ctx) extends Shrinks G A c c' : Prop where
  empty : ∀ τ, τ.Valid G → A τ → slotVal G c'.ip c'.fs.buf.data τ = 0

namespace Empties

variable {G : Geometry} {A A₁ A₂ : Slot → Prop} {c c₁ c₂ : Ctx}

/-- Emptying nothing, or only slots that are empty already. -/
theorem of_empty (A : Slot → Prop) (h0 : ∀ τ, τ.Valid G → A τ → slotVal G c.ip c.fs.buf.data τ = 0) :
    Empties G A c c := ⟨Shrinks.refl A c, h0⟩

/-- The same emptying, with its slots described another way. -/
theorem congr (h : Empties G A₁ c c₁) (hA : ∀ τ, τ.Valid G → (A₁ τ ↔ A₂ τ)) :
    Empties G A₂ c c₁ :=
  ⟨h.mono fun τ hτ => (hA τ hτ).1, fun τ hτ ha => h.empty τ hτ ((hA τ hτ).2 ha)⟩

theorem trans (h₁ : Empties G A₁ c c₁) (h₂ : Empties G A₂ c₁ c₂) :
    Empties G (fun τ => A₁ τ ∨ A₂ τ) c c₂ where
  toShrinks := (h₁.mono fun _ _ => .inl).trans (h₂.mono fun _ _ => .inr)
  empty τ hτ hA := hA.elim (fun h => h₂.slot_zero hτ (h₁.empty τ hτ h)) (h₂.empty τ hτ)

/-- The slots afterwards: those of `A` empty, the others as before. -/
theorem slot_eq (h : Empties G A c c₁) [DecidablePred A] {τ : Slot} (hτ : τ.Valid G) :
    slotVal G c₁.ip c₁.fs.buf.data τ = if A τ then 0 else slotVal G c.ip c.fs.buf.data τ := by
  split
  · exact h.empty τ hτ ‹_›
  · exact h.slot_keep hτ ‹_›

end Empties

/-! ## The two stores of 0 in `itrunc` -/

section Steps

variable {G : Geometry} {c : Ctx}

/-- `bfree(dev, ip->addrs[k], trans, true); ip->addrs[k] = 0;` for the top slot `σ` of
address `k`, whose slots below are empty. -/
theorem Empties.clearTop {σ : Slot} {k : Nat} (hσ : σ.Valid G) (hk : σ.addr G = some k)
    (h0 : c.ip.addrs k ≠ 0)
    (hchild : σ.isPtr → ∀ j, (σ.child j).Valid G → slotVal G c.ip c.fs.buf.data (σ.child j) = 0) :
    Empties G (· = σ) c ⟨c.ip.setAddr k 0, (c.delayFree (c.ip.addrs k)).fs⟩ := by
  have hS := fun (τ : Slot) (hτ : τ.Valid G) =>
    slotVal_clearAddr G hσ hk hchild hτ
  have hv : slotVal G c.ip c.fs.buf.data σ = c.ip.addrs k := slotVal_of_addr G hk
  refine ⟨Shrinks.of_clear hσ (hv ▸ h0) hS rfl (fun b h => absurd rfl h) ⟨_, rfl⟩ ?_,
    fun τ hτ e => (hS τ hτ).trans (if_pos e)⟩
  simp [hv, Ctx.delayFree, Transaction.addFreeBlock]

/-- `bfree(dev, ap[i], trans, true); ap[i] = 0;` in the indirect block `r` of pointer slot
`ρ`, when the slots under entry `i` are empty. -/
theorem Empties.clearEntry (hinj : Inj G c.ip c.fs.buf.data) {ρ : Slot} (hρ : ρ.Valid G)
    (hp : ρ.isPtr) {r i : Nat} (hi : (ρ.child i).Valid G) (hr : slotVal G c.ip c.fs.buf.data ρ = r)
    (hr0 : r ≠ 0) (h0 : c.entry r i ≠ 0)
    (hchild : (ρ.child i).isPtr → ∀ j, ((ρ.child i).child j).Valid G →
      slotVal G c.ip c.fs.buf.data ((ρ.child i).child j) = 0) :
    Empties G (· = ρ.child i) c
      ((c.delayFree (c.entry r i)).writeBlock r (setWord (c.fs.buf.data r) i 0)) := by
  have hS := fun (τ : Slot) (hτ : τ.Valid G) => slotVal_clearEntry G hinj hρ hp hr hr0 hchild hτ
  have hv : slotVal G c.ip c.fs.buf.data (ρ.child i) = c.entry r i := by
    rw [slotVal_child G hp, hr, entryAt, if_neg hr0, Ctx.entry]
  refine ⟨Shrinks.of_clear hi (hv ▸ h0) hS rfl (fun b h => ?_) ⟨_, rfl⟩ ?_,
    fun τ hτ e => (hS τ hτ).trans (if_pos e)⟩
  · have hbr : b = r := by
      by_contra hbr
      exact h (by simp [Function.update_noteq hbr])
    exact hbr ▸ hr ▸ isPtr_of_slot G hρ hp (hr ▸ hr0)
  · simp [hv, Ctx.delayFree, Transaction.addFreeBlock]

/-- `bp->add_to_transaction(trans)` empties nothing. -/
theorem Empties.logBlock (c : Ctx) (b : Nat) : Empties G (fun _ => False) c (c.logBlock b) :=
  ⟨Shrinks.of_tree _ rfl rfl rfl rfl, fun _ _ h => h.elim⟩

end Steps

/-! ## Block ownership -/

section Owned

variable {E : Env} {Meta : Nat → Prop} {s : Sys} {i : Nat} {A : Slot → Prop} {c : Ctx}

/-- A shrink of inode `i`'s tree leaves every other inode's tree as it was: the blocks it
writes are inode `i`'s indirect blocks, which no other inode holds. -/
theorem Owned.slotVal_shrink_other (hs : Owned E Meta s) (hg : Shrinks E.geo A (s.ctx i) c)
    {j : Nat} (hij : j ≠ i) {τ : Slot} (hτ : τ.Valid E.geo) :
    slotVal E.geo (s.inodes j) c.fs.buf.data τ = slotVal E.geo (s.inodes j) s.fs.buf.data τ := by
  refine slotVal_congr E.geo (fun b hb => ?_) hτ
  by_contra hne
  obtain ⟨σ, hσ, -, rfl⟩ := isPtr_slot E.geo hb
  obtain ⟨σ', hσ', -, he⟩ := isPtr_slot E.geo (hg.data _ hne)
  exact hij (hs.inj j i σ σ' hσ hσ' hb.1 he.symm).1

/-- Each slot after a shrink of inode `i` keeps its block, or is an `A` slot of inode `i`
that is now empty and whose block is a recorded free. -/
theorem Owned.slotVal_shrink (hs : Owned E Meta s) (hg : Shrinks E.geo A (s.ctx i) c) (j : Nat)
    {τ : Slot} (hτ : τ.Valid E.geo) :
    slotVal E.geo ((s.put i c).inodes j) c.fs.buf.data τ = slotVal E.geo (s.inodes j) s.fs.buf.data τ ∨
      j = i ∧ slotVal E.geo ((s.put i c).inodes j) c.fs.buf.data τ = 0 ∧
        slotVal E.geo (s.inodes j) s.fs.buf.data τ ∈ c.fs.tx.freeBlocks := by
  by_cases hij : j = i
  · subst hij
    rw [Sys.put_inodes, Function.update_same]
    exact (hg.slot τ hτ).imp_right fun ⟨_, h⟩ => ⟨rfl, h⟩
  · rw [Sys.put_inodes, Function.update_noteq hij]
    exact .inl (hs.slotVal_shrink_other hg hij hτ)

/-- Emptying slots of one inode keeps block ownership: what a slot still holds it held
before, and a block that leaves the tree stays in use as a pending delayed free. -/
theorem Owned.shrink (hs : Owned E Meta s) (hg : Shrinks E.geo A (s.ctx i) c) :
    Owned E Meta (s.put i c) where
  inj j k σ τ hσ hτ h0 he := by
    have hσ0 := h0
    have hτ0 : slotVal E.geo ((s.put i c).inodes k) (s.put i c).fs.buf.data τ ≠ 0 := he ▸ h0
    rcases hs.slotVal_shrink hg j hσ with e₁ | ⟨-, z₁, -⟩
    · rcases hs.slotVal_shrink hg k hτ with e₂ | ⟨-, z₂, -⟩
      · simp only [Sys.put_fs] at e₁ e₂ he hσ0
        rw [e₁, e₂] at he
        exact hs.inj j k σ τ hσ hτ (e₁ ▸ hσ0) he
      · exact absurd z₂ hτ0
    · exact absurd z₁ h0
  used j τ hτ h0 := by
    simp only [Sys.put_fs, hg.free] at h0 ⊢
    rcases hs.slotVal_shrink hg j hτ with e | ⟨-, z, -⟩
    · rw [e] at h0 ⊢
      exact hs.used j τ hτ h0
    · exact absurd z h0
  meta b hb := by simpa [hg.free] using hs.meta b hb
  zero := hs.zero
  pending b hb := by
    simp only [Sys.put_fs, hg.free] at hb ⊢
    obtain ⟨l, hl, hl'⟩ := hg.freeBlocks
    rw [hl] at hb
    rcases List.mem_append.1 hb with hb | hb
    · exact hs.pending b hb
    · obtain ⟨τ, hτ, -, rfl, h0⟩ := hl' b hb
      exact (hs.used i τ hτ h0).1
  accounted b hb hf := by
    simp only [Sys.put_fs, hg.free] at hf ⊢
    rcases hs.accounted b hb hf with hm | ⟨j, τ, hτ, e⟩ | hp
    · exact .inl hm
    · rcases hs.slotVal_shrink hg j hτ with e' | ⟨-, -, f⟩
      · exact .inr (.inl ⟨j, τ, hτ, e'.trans e⟩)
      · exact .inr (.inr (e ▸ f))
    · exact .inr (.inr (hg.freeBlocks_subset hp))

end Owned

end Sv6Fs
