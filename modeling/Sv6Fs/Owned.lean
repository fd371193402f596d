import Sv6Fs.Bmap

/-! # Block ownership

The blocks of the root device are owned three ways: by a slot of an inode's block tree, by
the file system's metadata (the boot block, the superblock, the inode table, the bitmap,
the journal: a predicate `Meta`, since `fs.h` and `mkfs` are not among the repository's
files), or by a pending delayed free of the open transaction, which keeps its block in use
until the transaction commits. `Owned` says that every block in use is owned, that no block
is held by two slots, and that what a slot holds is in use and no metadata.

* `Owned.bmap_ok`, `Owned.bmap_error`: a `bmap` through any inode keeps the ownership
  invariant, whether it returns or runs out of blocks.
* `itrunc_leaks_block`: it does not survive `itrunc`. From every state where it holds, an
  inode of nonzero size with no blocks, mapped at logical block `NDIRECT + 1` and then
  truncated to 0, leaves the data block under entry 1 of its indirect block in use and
  owned by nothing: `itrunc`'s loop over the indirect block stops at the hole in entry 0,
  then frees the indirect block.
* `itrunc_assertion_fires`: an inode with no blocks, mapped at logical block 1 and truncated
  to 0, keeps direct slot 1 behind the hole in slot 0, and `itrunc`'s closing assertion
  fails.
-/

namespace Sv6Fs

section Owned

variable (E : Env) (Meta : Nat → Prop)

/-- Block ownership: no block is held by two slots, of one inode or of two; what a slot
holds is in use and is no metadata block; metadata blocks, block 0 among them, are in use,
and so are the pending delayed frees; and every block in use below `size` is a metadata
block, is held by a slot, or is a pending free. -/
structure Owned (s : Sys) : Prop where
  inj : ∀ i j σ τ, σ.Valid E.geo → τ.Valid E.geo →
    slotVal E.geo (s.inodes i) s.fs.buf.data σ ≠ 0 →
    slotVal E.geo (s.inodes i) s.fs.buf.data σ = slotVal E.geo (s.inodes j) s.fs.buf.data τ →
    i = j ∧ σ = τ
  used : ∀ i τ, τ.Valid E.geo → slotVal E.geo (s.inodes i) s.fs.buf.data τ ≠ 0 →
    s.fs.free (slotVal E.geo (s.inodes i) s.fs.buf.data τ) = false ∧
      ¬ Meta (slotVal E.geo (s.inodes i) s.fs.buf.data τ)
  meta : ∀ b, Meta b → s.fs.free b = false
  zero : Meta 0
  pending : ∀ b ∈ s.fs.tx.freeBlocks, s.fs.free b = false
  accounted : ∀ b < E.size, s.fs.free b = false →
    Meta b ∨ (∃ i τ, τ.Valid E.geo ∧ slotVal E.geo (s.inodes i) s.fs.buf.data τ = b) ∨
      b ∈ s.fs.tx.freeBlocks

variable {E Meta} {s : Sys}

/-- A file system whose inodes hold no blocks, whose free-bit-vector marks exactly the
metadata blocks in use, and whose transaction records no free, has block ownership. -/
theorem Owned.init (hempty : ∀ i k, (s.inodes i).addrs k = 0)
    (hfree : ∀ b, s.fs.free b = false ↔ Meta b) (hzero : Meta 0)
    (htx : s.fs.tx.freeBlocks = []) : Owned E Meta s where
  inj i _ σ _ hσ _ h0 := absurd (slotVal_of_addrs_zero E.geo _ (fun k _ => hempty i k) hσ) h0
  used i τ hτ h0 := absurd (slotVal_of_addrs_zero E.geo _ (fun k _ => hempty i k) hτ) h0
  meta b hb := (hfree b).2 hb
  zero := hzero
  pending b hb := by simp [htx] at hb
  accounted b _ hb := .inl ((hfree b).1 hb)

/-- The slots of an inode whose two tier roots are empty: a nonzero one is direct. -/
theorem slot_direct_of_roots {ip : Inode} {data : Nat → Block} (h₁ : ip.addrs E.geo.ndirect = 0)
    (h₂ : ip.addrs (E.geo.ndirect + 1) = 0) {τ : Slot} (hτ : τ.Valid E.geo)
    (h0 : slotVal E.geo ip data τ ≠ 0) : ∃ k < E.geo.ndirect, τ = .direct k := by
  cases τ with
  | direct k => exact ⟨k, hτ, rfl⟩
  | _ => simp [slotVal, entryAt, h₁, h₂] at h0

/-- A file system whose inodes hold direct blocks only, each block in one slot and no
metadata block; whose free-bit-vector marks in use exactly the metadata blocks and the
blocks held; and whose transaction records no free, has block ownership. -/
theorem Owned.ofDirect
    (hroot : ∀ i, (s.inodes i).addrs E.geo.ndirect = 0 ∧ (s.inodes i).addrs (E.geo.ndirect + 1) = 0)
    (hinj : ∀ i j k k', k < E.geo.ndirect → k' < E.geo.ndirect → (s.inodes i).addrs k ≠ 0 →
      (s.inodes i).addrs k = (s.inodes j).addrs k' → i = j ∧ k = k')
    (hmeta : ∀ i k, k < E.geo.ndirect → (s.inodes i).addrs k ≠ 0 → ¬ Meta ((s.inodes i).addrs k))
    (hfree : ∀ b, s.fs.free b = false ↔
      Meta b ∨ ∃ i k, k < E.geo.ndirect ∧ (s.inodes i).addrs k = b ∧ b ≠ 0)
    (hzero : Meta 0) (htx : s.fs.tx.freeBlocks = []) : Owned E Meta s where
  inj i j σ τ hσ hτ h0 he := by
    obtain ⟨k, hk, rfl⟩ := slot_direct_of_roots (hroot i).1 (hroot i).2 hσ h0
    obtain ⟨k', hk', rfl⟩ := slot_direct_of_roots (hroot j).1 (hroot j).2 hτ (he ▸ h0)
    obtain ⟨rfl, rfl⟩ := hinj i j k k' hk hk' h0 he
    exact ⟨rfl, rfl⟩
  used i τ hτ h0 := by
    obtain ⟨k, hk, rfl⟩ := slot_direct_of_roots (hroot i).1 (hroot i).2 hτ h0
    exact ⟨(hfree _).2 (.inr ⟨i, k, hk, rfl, h0⟩), hmeta i k hk h0⟩
  meta b hb := (hfree b).2 (.inl hb)
  zero := hzero
  pending b hb := by simp [htx] at hb
  accounted b _ hb := by
    rcases (hfree b).1 hb with hm | ⟨i, k, hk, rfl, -⟩
    · exact .inl hm
    · exact .inr (.inl ⟨i, .direct k, hk, rfl⟩)

/-- The tree of each inode is sound. -/
theorem Owned.wf (hs : Owned E Meta s) (i : Nat) : Wf E.geo (s.ctx i) where
  inj σ τ hσ hτ h0 he := (hs.inj i i σ τ hσ hτ h0 he).2
  used τ hτ h0 := (hs.used i τ hτ h0).1
  zero := hs.meta 0 hs.zero

/-- A growth of inode `i`'s tree leaves every other inode's tree as it was: the blocks that
change were free or are inode `i`'s indirect blocks, which no other inode holds. -/
theorem Owned.slotVal_other (hs : Owned E Meta s) {i j : Nat} {A : Slot → Prop} {c : Ctx}
    (hg : Grows E.geo A (s.ctx i) c) (hij : j ≠ i) {τ : Slot} (hτ : τ.Valid E.geo) :
    slotVal E.geo (s.inodes j) c.fs.buf.data τ = slotVal E.geo (s.inodes j) s.fs.buf.data τ := by
  refine slotVal_congr E.geo (fun b hb => ?_) hτ
  by_contra hne
  obtain ⟨σ, hσ, hp, rfl⟩ := isPtr_slot E.geo hb
  rcases hg.data _ hne with hf | hp'
  · simp [(hs.used j σ hσ hb.1).1] at hf
  · obtain ⟨σ', hσ', -, he⟩ := isPtr_slot E.geo hp'
    exact hij (hs.inj j i σ σ' hσ hσ' hb.1 he.symm).1

/-- Each slot of the state after a growth of inode `i` keeps its block, or is a slot of
inode `i` that held 0 and now holds a block that was free and is now in use. -/
theorem Owned.slotVal_put (hs : Owned E Meta s) {i : Nat} {A : Slot → Prop} {c : Ctx}
    (hg : Grows E.geo A (s.ctx i) c) (j : Nat) {τ : Slot} (hτ : τ.Valid E.geo) :
    slotVal E.geo ((s.put i c).inodes j) (s.put i c).fs.buf.data τ =
        slotVal E.geo (s.inodes j) s.fs.buf.data τ ∨
      j = i ∧ slotVal E.geo (s.inodes j) s.fs.buf.data τ = 0 ∧
        s.fs.free (slotVal E.geo ((s.put i c).inodes j) (s.put i c).fs.buf.data τ) = true ∧
        c.fs.free (slotVal E.geo ((s.put i c).inodes j) (s.put i c).fs.buf.data τ) = false := by
  by_cases hij : j = i
  · subst hij
    rw [Sys.put_inodes, Function.update_same]
    exact (hg.slot τ hτ).imp_right fun h => ⟨rfl, h.2⟩
  · rw [Sys.put_inodes, Function.update_noteq hij]
    exact .inl (hs.slotVal_other hg hij hτ)

/-- A growth of one inode's tree that leaves it sound keeps block ownership. -/
theorem Owned.put (hs : Owned E Meta s) {i : Nat} {A : Slot → Prop} {c : Ctx}
    (hg : Grows E.geo A (s.ctx i) c) (hw : Wf E.geo c) : Owned E Meta (s.put i c) where
  inj j k σ τ hσ hτ h0 he := by
    rcases hs.slotVal_put hg j hσ with e₁ | ⟨rfl, -, f₁, -⟩ <;>
      rcases hs.slotVal_put hg k hτ with e₂ | ⟨rfl, -, f₂, -⟩
    · rw [e₁, e₂] at he
      exact hs.inj j k σ τ hσ hτ (e₁ ▸ h0) he
    · have := (hs.used j σ hσ (e₁ ▸ h0)).1
      rw [← e₁, he] at this
      simp only [Sys.put_inodes, Sys.put_fs, Function.update_same] at this f₂
      simp [this] at f₂
    · have := (hs.used k τ hτ (by rwa [← e₂, ← he])).1
      rw [← e₂, ← he] at this
      simp only [Sys.put_inodes, Sys.put_fs, Function.update_same] at this f₁
      simp [this] at f₁
    · simp only [Sys.put_inodes, Function.update_same] at he h0
      exact ⟨rfl, hw.inj σ τ hσ hτ h0 he⟩
  used j τ hτ h0 := by
    rcases hs.slotVal_put hg j hτ with e | ⟨-, -, f, f'⟩
    · rw [e] at h0 ⊢
      obtain ⟨hu, hm⟩ := hs.used j τ hτ h0
      exact ⟨hg.free_false hu, hm⟩
    · exact ⟨f', fun hm => absurd (f.symm.trans (hs.meta _ hm)) (by decide)⟩
  meta b hb := hg.free_false (hs.meta b hb)
  zero := hs.zero
  pending b hb := hg.free_false (hs.pending b (hg.freeBlocks ▸ hb))
  accounted b hb hf := by
    simp only [Sys.put_fs] at hf ⊢
    cases hfs : s.fs.free b
    · rcases hs.accounted b hb hfs with hm | ⟨j, τ, hτ, e⟩ | hp
      · exact .inl hm
      · rcases hs.slotVal_put hg j hτ with e' | ⟨-, z, -⟩
        · exact .inr (.inl ⟨j, τ, hτ, e'.trans e⟩)
        · exact .inl (e.symm.trans z ▸ hs.zero)
      · exact .inr (.inr (hg.freeBlocks ▸ hp))
    · have hb0 : b ≠ 0 := fun h => by simp [h, hs.meta 0 hs.zero] at hfs
      obtain ⟨τ, hτ, e⟩ := hg.alloc b hb0 hfs hf
      exact .inr (.inl ⟨i, τ, hτ, by simpa using e⟩)

/-- A `bmap` through inode `i` that returns keeps block ownership. -/
theorem Owned.bmap_ok (hE : E.Sane) (hs : Owned E Meta s) {i bn b : Nat} {trans zero : Bool}
    {s' : Sys} (hbn : bn < E.geo.maxfile) (h : onInode i (bmap E bn trans zero) s = .ok b s') :
    Owned E Meta s' := by
  obtain ⟨c, hc, rfl⟩ := onInode_ok h
  obtain ⟨hg, hw, -⟩ := Sv6Fs.bmap_ok hE (hs.wf i) hbn hc
  exact hs.put hg hw

/-- A `bmap` through inode `i` that runs out of blocks keeps block ownership. -/
theorem Owned.bmap_error (hE : E.Sane) (hs : Owned E Meta s) {i bn : Nat} {trans zero : Bool}
    {e : Fault} {s' : Sys} (hbn : bn < E.geo.maxfile)
    (h : onInode i (bmap E bn trans zero) s = .error e s') : Owned E Meta s' := by
  obtain ⟨c, hc, rfl⟩ := onInode_error h
  obtain ⟨-, hg, hw, -⟩ := Sv6Fs.bmap_error hE (hs.wf i) hbn hc
  exact hs.put hg hw

/-- The one block of an empty tree that `bmap` of logical block `NDIRECT + 1` fills besides
the indirect block: the slot under the indirect block's entry 1. -/
theorem dataSlot_ndirect_succ {G : Geometry} (hn : 2 ≤ G.nindirect) :
    dataSlot G (G.ndirect + 1) = .ind 1 := by
  simp [dataSlot, show 1 < G.nindirect by omega]

/-- From any state with block ownership, an inode of nonzero size that holds no block, whose
logical block `NDIRECT + 1` is mapped (as `writei` or `readi` of a byte at
`(NDIRECT + 1) * BSIZE` maps it) and which is then truncated to 0: `bmap` takes the indirect
block and the data block `y` under its entry 1, leaving entry 0 a hole; `itrunc`'s loop over
the indirect block stops at that hole, and the indirect block is freed. `y` stays in use,
and is held by no slot of any inode, is no metadata block, and is no pending free. -/
theorem itrunc_leaks_block (hE : E.Sane) (hs : Owned E Meta s) {i : Nat}
    (hempty : ∀ k, (s.inodes i).addrs k = 0) (hsize : 0 < (s.inodes i).size)
    (hn : 2 ≤ E.geo.nindirect) (h1 : E.allocBlock s.fs.free < E.size)
    (h2 : E.allocBlock (Function.update s.fs.free (E.allocBlock s.fs.free) false) < E.size)
    (trans zero : Bool) :
    ∃ y s₁ s₂, onInode i (bmap E (E.geo.ndirect + 1) trans zero) s = .ok y s₁ ∧
      onInode i (itrunc E.geo 0) s₁ = .ok () s₂ ∧ y < E.size ∧ s₂.fs.free y = false ∧
      ¬ Meta y ∧ (∀ j τ, τ.Valid E.geo → slotVal E.geo (s₂.inodes j) s₂.fs.buf.data τ ≠ y) ∧
      y ∉ s₂.fs.tx.freeBlocks := by
  set G := E.geo
  obtain ⟨c₁, hb⟩ := bmap_empty_ind (c := s.ctx i) hE hn hempty h1 h2 trans zero
  simp only [Sys.ctx_fs] at hb
  set y := E.allocBlock (Function.update s.fs.free (E.allocBlock s.fs.free) false)
  have hbn : G.ndirect + 1 < G.maxfile := by unfold Geometry.maxfile; omega
  obtain ⟨hg, hw, hy, hy0, -⟩ := Sv6Fs.bmap_ok hE (hs.wf i) hbn hb
  rw [dataSlot_ndirect_succ hn] at hg hy
  have hs₁ := hs.put hg hw
  -- the slots off the path to `ind 1` still hold 0
  have hzero : ∀ τ, τ.Valid G → slotVal G (s.inodes i) s.fs.buf.data τ = 0 :=
    fun τ hτ => slotVal_of_addrs_zero G _ (fun k _ => hempty k) hτ
  have hkeep : ∀ τ, τ.Valid G → τ ∉ (Slot.ind 1).path →
      slotVal G c₁.ip c₁.fs.buf.data τ = 0 := fun τ hτ hp =>
    (hg.slot_keep hτ hp).trans (hzero τ hτ)
  have hyf : s.fs.free y = true := by
    rcases hg.slot (.ind 1) hn with e | ⟨-, -, f, -⟩
    · exact absurd (hy.symm.trans (e.trans (hzero _ hn))) hy0
    · rwa [hy] at f
  have haddr : ∀ k, k ≠ G.ndirect → k < G.ndirect + 2 → c₁.ip.addrs k = 0 := fun k hk hk2 => by
    by_cases hd : k < G.ndirect
    · exact hkeep (.direct k) hd (by simp [Slot.path])
    · obtain rfl : k = G.ndirect + 1 := by omega
      exact hkeep .dblRoot trivial (by simp [Slot.path])
  have hr0 : c₁.ip.addrs G.ndirect ≠ 0 := fun h => hy0 (by rw [← hy]; simp [slotVal, entryAt, h])
  have he : c₁.entry (c₁.ip.addrs G.ndirect) 0 = 0 := by
    have := hkeep (.ind 0) (by show 0 < G.nindirect; omega) (by simp [Slot.path])
    simpa [slotVal, entryAt, hr0] using this
  have hsz : c₁.ip.size = (s.inodes i).size := by
    obtain ⟨a, e⟩ := hg.ip
    rw [e]
    rfl
  have ht := itrunc_zero_hole G hn haddr rfl hr0 he (hsz ▸ hsize)
  have hyr : y ≠ c₁.ip.addrs G.ndirect := fun e =>
    absurd (hw.inj (.ind 1) .indRoot hn trivial (hy ▸ hy0) (hy.trans e)) (by simp)
  refine ⟨y, s.put i c₁, (s.put i c₁).put i _, onInode_of_ok hb,
    onInode_of_ok (by rwa [Sys.put_ctx]), h2, ?_, fun hm => by simp [hs.meta y hm] at hyf,
    fun j τ hτ e => ?_, ?_⟩
  · have := hw.used (.ind 1) hn (by rw [hy]; exact hy0)
    rw [hy] at this
    exact this
  · by_cases hji : j = i
    · subst hji
      rw [Sys.put_inodes, Function.update_same, slotVal_of_addrs_zero G _ (fun k hk => ?_) hτ]
        at e
      · exact hy0 e.symm
      · by_cases hk' : k = G.ndirect
        · simp [hk']
        · simpa [Function.update_noteq hk'] using haddr k hk' hk
    · have h₁ : slotVal G ((s.put i c₁).inodes j) (s.put i c₁).fs.buf.data τ = y := by
        simpa [Function.update_noteq hji] using e
      have h₂ : slotVal G ((s.put i c₁).inodes i) (s.put i c₁).fs.buf.data (.ind 1) = y := by
        simpa using hy
      exact hji (hs₁.inj j i τ (.ind 1) hτ hn (by rw [h₁]; exact hy0) (h₁.trans h₂.symm)).1
  · simp only [Sys.put_fs, Ctx.delayFree_tx, Transaction.addFreeBlock_freeBlocks, hg.freeBlocks,
      List.mem_append, List.mem_singleton, not_or]
    exact ⟨fun hp => by simp [hs.pending y hp] at hyf, hyr⟩

/-- 64-byte blocks, one direct slot, twenty blocks of which 0 to 2 are metadata, and a
first-fit allocator: inode 1, of size 1 and with no blocks, loses block 4. -/
theorem itrunc_leaks_block_small :
    let E := Env.firstFit ⟨64, 1, 12, by decide⟩ 20
    let s : Sys := ⟨fun _ => ⟨1, .file, 0, 0, 1, 1, 0, fun _ => 0, none, 0, 1⟩,
      ⟨⟨fun _ => zeroBlock, fun _ => false, fun _ => zeroBlock⟩, fun b => decide (3 ≤ b),
        Transaction.empty⟩⟩
    ∃ y s₁ s₂, onInode 1 (bmap E (E.geo.ndirect + 1) true true) s = .ok y s₁ ∧
      onInode 1 (itrunc E.geo 0) s₁ = .ok () s₂ ∧ y < E.size ∧ s₂.fs.free y = false ∧
      ¬ y < 3 ∧ (∀ j τ, τ.Valid E.geo → slotVal E.geo (s₂.inodes j) s₂.fs.buf.data τ ≠ y) ∧
      y ∉ s₂.fs.tx.freeBlocks :=
  itrunc_leaks_block (Env.firstFit_sane _ (by decide))
    (show Owned _ (fun b => b < 3) _ from Owned.init (fun _ _ => rfl) (fun b => by simp) (by decide)
      rfl) (fun _ => rfl)
    (by decide) (by decide) (by decide) (by decide) true true

/-- From a state where inode `i`'s tree is sound, an inode of nonzero size that holds no
block, on a geometry with at least two direct slots: `bmap` of logical block 1 (as `writei` or
`readi` of a byte at `BSIZE` maps it) fills direct slot 1 and leaves slot 0 a hole; `itrunc`
to 0 then stops its direct loop at the hole, leaves slot 1 in place, and fails its closing
assertion. -/
theorem itrunc_assertion_fires (hE : E.Sane) {i : Nat} (hw : Wf E.geo (s.ctx i))
    (hempty : ∀ k, (s.inodes i).addrs k = 0) (hsize : 0 < (s.inodes i).size)
    (hd : 2 ≤ E.geo.ndirect) (h1 : E.allocBlock s.fs.free < E.size) (trans zero : Bool) :
    ∃ y s₁ s₂, onInode i (bmap E 1 trans zero) s = .ok y s₁ ∧ y ≠ 0 ∧
      (s₁.inodes i).addrs 0 = 0 ∧ (s₁.inodes i).addrs 1 = y ∧
      onInode i (itrunc E.geo 0) s₁ = .error (.panic "assertion failed: ip->addrs[i] == 0") s₂ := by
  set y := E.allocBlock s.fs.free
  set c₁ : Ctx := ⟨(s.inodes i).setAddr 1 y, ((s.ctx i).takeBlock y trans zero).fs⟩
  have hb : bmap E 1 trans zero (s.ctx i) = .ok y c₁ := by
    simp [bmap, ensureAddr, balloc_apply, h1, hempty, show 1 < E.geo.ndirect by omega, y, c₁]
  have hy0 : y ≠ 0 := (hw.fresh (hE.allocFree _ h1)).1
  have hS : c₁.ip.Stranded E.geo :=
    .inl ⟨1, by omega, by simpa [c₁] using hy0, 0, Nat.one_pos, by simp [c₁, hempty]⟩
  obtain ⟨c₂, h₂⟩ := (itrunc_zero (G := E.geo) (c := c₁) hsize
    (by unfold Geometry.maxfile; omega)).1 hS
  exact ⟨y, s.put i c₁, _, onInode_of_ok hb, hy0, by simp [c₁, hempty], by simp [c₁],
    onInode_of_error (by rwa [Sys.put_ctx])⟩

/-- 64-byte blocks, two direct slots, twenty blocks of which 0 to 2 are metadata, and a
first-fit allocator: inode 1, of size 9 and with no blocks, gets block 3 in direct slot 1. -/
theorem itrunc_assertion_fires_small :
    let E := Env.firstFit ⟨64, 2, 12, by decide⟩ 20
    let s : Sys := ⟨fun _ => ⟨1, .file, 0, 0, 1, 9, 0, fun _ => 0, none, 0, 1⟩,
      ⟨⟨fun _ => zeroBlock, fun _ => false, fun _ => zeroBlock⟩, fun b => decide (3 ≤ b),
        Transaction.empty⟩⟩
    ∃ y s₁ s₂, onInode 1 (bmap E 1 true true) s = .ok y s₁ ∧ y ≠ 0 ∧
      (s₁.inodes 1).addrs 0 = 0 ∧ (s₁.inodes 1).addrs 1 = y ∧
      onInode 1 (itrunc E.geo 0) s₁ = .error (.panic "assertion failed: ip->addrs[i] == 0") s₂ :=
  itrunc_assertion_fires (Env.firstFit_sane _ (by decide))
    ((show Owned _ (fun b => b < 3) _ from
      Owned.init (fun _ _ => rfl) (fun b => by simp) (by decide) rfl).wf 1)
    (fun _ => rfl) (by decide) (by decide) (by decide) true true

end Owned

end Sv6Fs
