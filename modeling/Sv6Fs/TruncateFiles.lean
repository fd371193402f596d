import Sv6Fs.Truncate
import Sv6Fs.Mapped
import Sv6Fs.DirRoundTrip

/-! # Truncation of a file without holes

What `itrunc` does to the system state and to the files (`Sys.files`) on an inode whose
block tree has no holes (`Dense`). `itrunc` frees whole blocks only: the bytes between
`offset` and the end of its block stay as they were, and read again if the size grows back.

* `Owned.itrunc_dense`: from a state with block ownership, a truncation below the size keeps
  block ownership and the free-bit-vector, empties exactly the slots of the inode from
  logical block `truncFrom offset` on, and records as pending frees exactly the blocks they
  held.
* `FilesInv.itrunc_effect`, `FilesInv.itrunc_truncates`: it keeps the file invariant and the
  tree without holes, unmaps the logical blocks from `truncFrom offset` on, and changes the
  files as the abstract truncation `AFile.truncate` does: the size becomes `offset`, and the
  bytes from `truncFrom offset * BSIZE` on read 0.
* `FilesInv.itrunc_last_block`: when `offset` lies in the last block of the tiers,
  `BLOCKROUNDUP(offset)` is `MAXFILE` and `truncFrom offset` is 0: the truncation empties
  the whole file, so every byte below `offset` reads 0 too. With `BSIZE ≥ 4096` no `u32`
  offset lies there.
-/

namespace Sv6Fs

namespace Abs

/-- A truncation to `size` that gives back the storage from byte `keep` on: those bytes
read 0 from then on. -/
def AFile.truncate (f : AFile) (size keep : Nat) : AFile :=
  ⟨size, fun p => if keep ≤ p then 0 else f.bytes p⟩

end Abs

open Abs

/-! ## The bytes after an emptying -/

section Frame

variable {G : Geometry} {c c₁ : Ctx} {B : Nat}

/-- Emptying the slots from logical block `B` on unmaps exactly the logical blocks from `B`
on. -/
theorem mapped_truncate (h : Empties G (fun τ => B ≤ τ.first G) c c₁) (bn : Nat) :
    mapped G c₁.ip c₁.fs.buf.data bn = if B ≤ bn then 0 else mapped G c.ip c.fs.buf.data bn := by
  unfold mapped
  split
  · rw [h.slot_eq (dataSlot_valid G ‹_›), Slot.first_dataSlot]
  · split <;> rfl

/-- Emptying the slots from logical block `B` on, in a well-formed tree, makes the bytes
from `B * BSIZE` on read 0 and keeps the others: a data block still mapped is no indirect
block, so the emptying did not write it. -/
theorem fileByte_truncate (hw : Wf G c) (h : Empties G (fun τ => B ≤ τ.first G) c c₁) (p : Nat) :
    fileByte G c₁.ip c₁.fs.buf.data p =
      if B * G.bsize ≤ p then 0 else fileByte G c.ip c.fs.buf.data p := by
  have hB : B * G.bsize ≤ p ↔ B ≤ p / G.bsize := (Nat.le_div_iff_mul_le G.bsize_pos).symm
  have hm := mapped_truncate h (p / G.bsize)
  by_cases hb : B ≤ p / G.bsize
  · simp [fileByte, hm, hb, hB]
  rw [if_neg (mt hB.1 hb)]
  rw [if_neg hb] at hm
  by_cases h0 : mapped G c.ip c.fs.buf.data (p / G.bsize) = 0
  · simp [fileByte, hm, h0]
  obtain ⟨hlt, he⟩ := mapped_of_ne_zero G h0
  have hkeep : c₁.fs.buf.data (mapped G c.ip c.fs.buf.data (p / G.bsize)) =
      c.fs.buf.data (mapped G c.ip c.fs.buf.data (p / G.bsize)) := by
    by_contra hne
    exact hw.inj.not_isPtr G hlt (he ▸ h0) (he ▸ h.data _ hne)
  rw [fileByte_of_mapped G (hm ▸ h0), fileByte_of_mapped G h0, hm, hkeep]

end Frame

section Owned

variable {E : Env} {Meta : Nat → Prop} {s : Sys} {i j : Nat} {A : Slot → Prop} {c : Ctx}

/-- A shrink of inode `i`'s tree keeps every byte of every other file: the blocks it writes
are inode `i`'s indirect blocks, which no other inode holds. -/
theorem Owned.fileByte_shrink_other (hs : Owned E Meta s) (hg : Shrinks E.geo A (s.ctx i) c)
    (hij : j ≠ i) (p : Nat) :
    fileByte E.geo (s.inodes j) c.fs.buf.data p = fileByte E.geo (s.inodes j) s.fs.buf.data p := by
  have hdata : ∀ τ, τ.Valid E.geo → slotVal E.geo (s.inodes j) s.fs.buf.data τ ≠ 0 →
      c.fs.buf.data (slotVal E.geo (s.inodes j) s.fs.buf.data τ) =
        s.fs.buf.data (slotVal E.geo (s.inodes j) s.fs.buf.data τ) := fun τ hτ h0 => by
    by_contra hne
    obtain ⟨σ, hσ, -, he⟩ := isPtr_slot E.geo (hg.data _ hne)
    exact hij (hs.inj j i τ σ hτ hσ h0 he.symm).1
  refine fileByte_congr E.geo (fun b hb => ?_) fun h0 => ?_
  · obtain ⟨σ, hσ, -, rfl⟩ := isPtr_slot E.geo hb
    exact hdata σ hσ hb.1
  · obtain ⟨hlt, he⟩ := mapped_of_ne_zero E.geo h0
    rw [he] at h0 ⊢
    exact hdata _ (dataSlot_valid E.geo hlt) h0

/-- `itrunc` of inode `i` to an offset below its size and within the tiers, on a tree without
holes, from a state with block ownership: it returns and keeps block ownership and the
free-bit-vector; the slots of inode `i` from logical block `truncFrom offset` on are empty,
and every other slot of every inode holds what it held; the pending frees are those before
and exactly the blocks the emptied slots held. -/
theorem Owned.itrunc_dense (hs : Owned E Meta s) (hd : Dense E.geo (s.inodes i) s.fs.buf.data)
    {offset : Nat} (hsize : offset < (s.inodes i).size)
    (hoff : offset < E.geo.maxfile * E.geo.bsize) :
    ∃ s', onInode i (itrunc E.geo offset) s = .ok () s' ∧ Owned E Meta s' ∧
      s'.fs.free = s.fs.free ∧
      (∀ j τ, τ.Valid E.geo → slotVal E.geo (s'.inodes j) s'.fs.buf.data τ =
        if j = i ∧ truncFrom E.geo offset ≤ τ.first E.geo then 0
        else slotVal E.geo (s.inodes j) s.fs.buf.data τ) ∧
      ∀ b, b ∈ s'.fs.tx.freeBlocks ↔ b ∈ s.fs.tx.freeBlocks ∨
        ∃ τ, τ.Valid E.geo ∧ truncFrom E.geo offset ≤ τ.first E.geo ∧
          slotVal E.geo (s.inodes i) s.fs.buf.data τ = b ∧ b ≠ 0 := by
  obtain ⟨c₁, h₁, hc₁⟩ := itrunc_empties (hs.wf i) hd hsize hoff
  have ho₁ : Owned E Meta (s.put i c₁) := hs.shrink hc₁.toShrinks
  refine ⟨_, onInode_of_ok h₁, Owned.put_addrs (c := c₁) ho₁ rfl, hc₁.free, fun j τ hτ => ?_,
    fun b => ⟨fun hb => ?_, fun hb => ?_⟩⟩
  · by_cases hji : j = i
    · subst hji
      simpa using hc₁.slot_eq hτ
    · simpa [hji] using hs.slotVal_shrink_other hc₁.toShrinks hji hτ
  · obtain ⟨l, hl, hl'⟩ := hc₁.freeBlocks
    rcases List.mem_append.1 (hl ▸ hb) with hb | hb
    · exact .inl hb
    · exact .inr (hl' b hb)
  · rcases hb with hb | ⟨τ, hτ, hA, rfl, h0⟩
    · exact hc₁.freeBlocks_subset hb
    · rcases hc₁.slot τ hτ with e | ⟨-, -, hf⟩
      · exact absurd (e ▸ hc₁.empty τ hτ hA) h0
      · exact hf

/-- Inode 1 of `tierFile` has no holes: each tier's one block is its first entry. -/
theorem tierFile_dense : Dense smallEnv.geo (tierFile.inodes 1) tierFile.fs.buf.data where
  direct k _ hk := absurd hk (by show ¬ k + 1 < 1; omega)
  entries π hπ hp k _ hk h := by
    obtain ⟨-, h'⟩ := tierFile_slot 1 ((Slot.child_valid hπ hp).2 hk) h
    cases π <;> simp [Slot.child, Slot.isPtr] at h' hp
  roots h := absurd h (by decide)

/-- Inode 1 of `tierFile`, with a block in each tier, truncated to 5 bytes: it keeps its
direct block 3, and the blocks from the indirect block 4 on, block 8 among them, go to the
transaction's free list. -/
theorem Owned.itrunc_dense_tiers :
    Owned smallEnv (· < 3) tierFile ∧ Dense smallEnv.geo (tierFile.inodes 1) tierFile.fs.buf.data ∧
      5 < (tierFile.inodes 1).size ∧ 5 < smallEnv.geo.maxfile * smallEnv.geo.bsize ∧
      ∃ s', onInode 1 (itrunc smallEnv.geo 5) tierFile = .ok () s' ∧ Owned smallEnv (· < 3) s' ∧
        s'.fs.free = tierFile.fs.free ∧
        (∀ j τ, τ.Valid smallEnv.geo → slotVal smallEnv.geo (s'.inodes j) s'.fs.buf.data τ =
          if j = 1 ∧ truncFrom smallEnv.geo 5 ≤ τ.first smallEnv.geo then 0
          else slotVal smallEnv.geo (tierFile.inodes j) tierFile.fs.buf.data τ) ∧
        (∀ b, b ∈ s'.fs.tx.freeBlocks ↔ b ∈ tierFile.fs.tx.freeBlocks ∨
          ∃ τ, τ.Valid smallEnv.geo ∧ truncFrom smallEnv.geo 5 ≤ τ.first smallEnv.geo ∧
            slotVal smallEnv.geo (tierFile.inodes 1) tierFile.fs.buf.data τ = b ∧ b ≠ 0) ∧
        8 ∈ s'.fs.tx.freeBlocks := by
  obtain ⟨s', h, hs', hfree, hslot, hfb⟩ :=
    Owned.itrunc_dense tierFile_owned tierFile_dense (show 5 < _ by decide) (by decide)
  have h8 : slotVal smallEnv.geo (tierFile.inodes 1) tierFile.fs.buf.data (.dbl2 0 0) = 8 := by
    simp [slotVal, tierFile, entryAt_tierData, show smallEnv.geo.ndirect = 1 from rfl]
  exact ⟨tierFile_owned, tierFile_dense, by decide, by decide, s', h, hs', hfree, hslot, hfb,
    (hfb 8).2 (.inr ⟨.dbl2 0 0, ⟨by decide, by decide⟩, by decide, h8, by decide⟩)⟩

end Owned

/-! ## The files -/

section Files

variable {E : Env} {Meta : Nat → Prop} {s : Sys} {i : Nat}

/-- What `itrunc` of inode `i` to an offset below its size does, on a tree without holes, from
a state with the file invariant: it returns and keeps the invariant, the tree without holes,
the free-bit-vector and the inode's type; it unmaps exactly the logical blocks from
`truncFrom offset` on, and changes the files as the abstract truncation to `offset` that
gives back the storage from byte `truncFrom offset * BSIZE` on. -/
theorem FilesInv.itrunc_effect (hs : FilesInv E Meta s)
    (hd : Dense E.geo (s.inodes i) s.fs.buf.data) {offset : Nat} (hsize : offset < (s.inodes i).size) :
    ∃ c', itrunc E.geo offset (s.ctx i) = .ok () c' ∧ FilesInv E Meta (s.put i c') ∧
      Dense E.geo c'.ip c'.fs.buf.data ∧ c'.fs.free = s.fs.free ∧ c'.ip.type = (s.inodes i).type ∧
      (∀ bn, mapped E.geo c'.ip c'.fs.buf.data bn =
        if truncFrom E.geo offset ≤ bn then 0 else mapped E.geo (s.inodes i) s.fs.buf.data bn) ∧
      (s.put i c').files E = Function.update (s.files E) i
        ((s.files E i).truncate offset (truncFrom E.geo offset * E.geo.bsize)) := by
  have hoff := lt_of_lt_of_le hsize (hs.size i)
  obtain ⟨c₁, h₁, hc₁⟩ := itrunc_empties (hs.owned.wf i) hd hsize hoff
  obtain ⟨a, ha⟩ := hc₁.ip
  have haddrs : ({ c₁.ip with size := offset } : Inode).addrs = c₁.ip.addrs := rfl
  refine ⟨_, h₁, hs.put (Owned.put_addrs (c := c₁) (hs.owned.shrink hc₁.toShrinks) rfl)
    (by simp [ha]) hoff.le, (hd.truncate hc₁).of_addrs haddrs, hc₁.free, by simp [ha],
    fun bn => ?_, Sys.files_put rfl fun j p => ?_⟩
  · simpa only [mapped, slotVal_of_addrs E.geo haddrs] using mapped_truncate hc₁ bn
  · by_cases hji : j = i
    · subst hji
      simpa [AFile.truncate, fileByte_of_addrs E.geo haddrs] using
        fileByte_truncate (hs.owned.wf j) hc₁ p
    · simpa [hji] using hs.owned.fileByte_shrink_other hc₁.toShrinks hji p

/-- `itrunc` of inode `i` to an offset below its size, on a tree without holes, from a state
with the file invariant: it returns, keeps the invariant, the tree without holes and the
free-bit-vector, and changes the files as the abstract truncation to `offset` that gives
back the storage from byte `truncFrom offset * BSIZE` on. -/
theorem FilesInv.itrunc_truncates (hs : FilesInv E Meta s)
    (hd : Dense E.geo (s.inodes i) s.fs.buf.data) {offset : Nat} (hsize : offset < (s.inodes i).size) :
    ∃ s', onInode i (itrunc E.geo offset) s = .ok () s' ∧ FilesInv E Meta s' ∧
      Dense E.geo (s'.inodes i) s'.fs.buf.data ∧ s'.fs.free = s.fs.free ∧
      s'.files E = Function.update (s.files E) i
        ((s.files E i).truncate offset (truncFrom E.geo offset * E.geo.bsize)) := by
  obtain ⟨c', h, hs', hd', hfree, -, -, hfiles⟩ := hs.itrunc_effect hd hsize
  exact ⟨_, onInode_of_ok h, hs', by simpa using hd', hfree, hfiles⟩

/-- Inode 1 of `oneBlockDir`, a directory of 16 bytes in block 3, truncated to 5 bytes: it
keeps its block. -/
theorem FilesInv.itrunc_truncates_one_block :
    let s := oneBlockDir fun k => k.toUInt8
    FilesInv smallEnv (· < 3) s ∧ Dense smallEnv.geo (s.inodes 1) s.fs.buf.data ∧
      5 < (s.inodes 1).size ∧
      ∃ s', onInode 1 (itrunc smallEnv.geo 5) s = .ok () s' ∧ FilesInv smallEnv (· < 3) s' ∧
        Dense smallEnv.geo (s'.inodes 1) s'.fs.buf.data ∧ s'.fs.free = s.fs.free ∧
        s'.files smallEnv = Function.update (s.files smallEnv) 1
          ((s.files smallEnv 1).truncate 5 (truncFrom smallEnv.geo 5 * smallEnv.geo.bsize)) := by
  intro s
  have hs : FilesInv smallEnv (· < 3) s := oneBlockDir_filesInv _
  have hd : Dense smallEnv.geo (s.inodes 1) s.fs.buf.data :=
    Dense.of_direct (fun k _ hk => absurd hk (by show ¬ k + 1 < 1; omega)) rfl rfl
  exact ⟨hs, hd, by decide, FilesInv.itrunc_truncates hs hd (by decide)⟩

/-- An offset in the last block of the tiers: there `BLOCKROUNDUP(offset)` is `MAXFILE`. -/
theorem blockRoundup_last_block {G : Geometry} {offset : Nat}
    (hlast : (G.maxfile - 1) * G.bsize < offset) (hoff : offset ≤ G.maxfile * G.bsize) :
    blockRoundup G.bsize offset = G.maxfile := by
  have h₁ : blockRoundup G.bsize offset ≤ G.maxfile := (blockRoundup_le_iff G.bsize_pos).2 hoff
  have h₂ : ¬ blockRoundup G.bsize offset ≤ G.maxfile - 1 :=
    mt (blockRoundup_le_iff G.bsize_pos).1 (not_le.2 hlast)
  omega

/-- `itrunc` of inode `i` to an offset in the last block of the tiers, below the size, on a
tree without holes: `BLOCKROUNDUP(offset)` is `MAXFILE`, where `start_stage` and `start_index`
keep their initial values, so the truncation empties the whole file, and every byte of it
reads 0 afterwards, those below the new size `offset` included. With `BSIZE ≥ 4096` no such
offset is a `u32`. -/
theorem FilesInv.itrunc_last_block (hs : FilesInv E Meta s)
    (hd : Dense E.geo (s.inodes i) s.fs.buf.data) {offset : Nat} (hsize : offset < (s.inodes i).size)
    (hlast : (E.geo.maxfile - 1) * E.geo.bsize < offset) :
    blockRoundup E.geo.bsize offset = E.geo.maxfile ∧
      (∃ s', onInode i (itrunc E.geo offset) s = .ok () s' ∧ (s'.inodes i).size = offset ∧
        ∀ p, (s'.files E i).bytes p = 0) ∧
      (4096 ≤ E.geo.bsize → 4294967296 ≤ offset) := by
  have hoff := lt_of_lt_of_le hsize (hs.size i)
  have hbr := blockRoundup_last_block hlast hoff.le
  have h0 : truncFrom E.geo offset = 0 := by simp [truncFrom, hbr]
  obtain ⟨c₁, h₁, hc₁⟩ := itrunc_empties (hs.owned.wf i) hd hsize hoff
  refine ⟨hbr, ⟨_, onInode_of_ok h₁, by simp, fun p => ?_⟩, fun hb => ?_⟩
  · have := fileByte_truncate (hs.owned.wf i) hc₁ p
    rw [h0, Nat.zero_mul, if_pos (Nat.zero_le p)] at this
    simpa [fileByte_of_addrs E.geo (show { c₁.ip with size := offset }.addrs = c₁.ip.addrs
      from rfl)] using this
  · -- the doubly-indirect tier alone then holds `2^20` blocks of `2^12` bytes
    have hN : 1024 ≤ E.geo.nindirect := by unfold Geometry.nindirect; omega
    have hNN : 1024 * 1024 ≤ E.geo.nindirect * E.geo.nindirect := Nat.mul_le_mul hN hN
    have hmf : 1024 * 1024 + 1 ≤ E.geo.maxfile := by unfold Geometry.maxfile; omega
    have hm : (E.geo.maxfile - 1) * 4096 ≤ (E.geo.maxfile - 1) * E.geo.bsize :=
      Nat.mul_le_mul_left _ hb
    omega

/-- Inode 1 of `oneBlockDir` grown to 17450 bytes, truncated to 17420: with `BSIZE = 64` and
`NDIRECT = 1` the tiers hold 273 logical blocks, the last of which holds bytes 17408 to 17471,
so block 3 is freed, and the bytes below 17420 that it held read 0. -/
theorem FilesInv.itrunc_last_block_64 :
    let s₀ := oneBlockDir fun k => k.toUInt8
    let s := s₀.put 1 ⟨{ s₀.inodes 1 with size := 17450 }, s₀.fs⟩
    FilesInv smallEnv (· < 3) s ∧ Dense smallEnv.geo (s.inodes 1) s.fs.buf.data ∧
      17420 < (s.inodes 1).size ∧ (smallEnv.geo.maxfile - 1) * smallEnv.geo.bsize < 17420 ∧
      blockRoundup smallEnv.geo.bsize 17420 = smallEnv.geo.maxfile ∧
      (∃ s', onInode 1 (itrunc smallEnv.geo 17420) s = .ok () s' ∧ (s'.inodes 1).size = 17420 ∧
        ∀ p, (s'.files smallEnv 1).bytes p = 0) ∧
      (4096 ≤ smallEnv.geo.bsize → 4294967296 ≤ 17420) := by
  intro s₀ s
  have hs₀ : FilesInv smallEnv (· < 3) s₀ := oneBlockDir_filesInv _
  have hs : FilesInv smallEnv (· < 3) s :=
    hs₀.put (Owned.put_addrs (c := s₀.ctx 1) (by rw [Sys.put_self]; exact hs₀.owned) rfl) rfl
      (by decide)
  have hd : Dense smallEnv.geo (s.inodes 1) s.fs.buf.data :=
    Dense.of_direct (fun k _ hk => absurd hk (by show ¬ k + 1 < 1; omega)) rfl rfl
  exact ⟨hs, hd, by decide, by decide, FilesInv.itrunc_last_block hs hd (by decide) (by decide)⟩

end Files

end Sv6Fs
