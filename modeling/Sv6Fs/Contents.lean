import Sv6Fs.Owned

/-! # Which calls change which bytes

A byte of a file is read through the data slot of its logical block (`fileByte`). Under
block ownership, the blocks that a call on one inode changes are the blocks it takes (free
until then), its own indirect blocks, the data block it writes, and metadata blocks; none
of them is a data block of another file or of another logical block of the same file. So:

* `fileByte_of_grows`: a growth of the tree that keeps the data slot of a block keeps the
  block's bytes;
* `Owned.fileByte_other`: a growth of one inode's tree keeps every byte of every other file;
* `fileByte_write`: a write of block `b` changes exactly the bytes of the file whose data
  slot holds `b`;
* `Owned.put_writeBlock`: writing a block that is no indirect block of any inode keeps
  block ownership.
-/

namespace Sv6Fs

section DataSlot

variable (G : Geometry)

theorem dataSlot_not_isPtr (bn : Nat) : (dataSlot G bn).isPtr = false := by
  unfold dataSlot
  split_ifs <;> rfl

/-- Distinct logical blocks have distinct data slots. -/
theorem dataSlot_inj {bn bn' : Nat} (h : dataSlot G bn = dataSlot G bn') : bn = bn' := by
  unfold dataSlot at h
  split_ifs at h <;> simp only [Slot.dbl2.injEq, Slot.ind.injEq, Slot.direct.injEq,
    reduceCtorEq] at h <;> try omega
  have h₁ := Nat.div_add_mod (bn - G.ndirect - G.nindirect) G.nindirect
  have h₂ := Nat.div_add_mod (bn' - G.ndirect - G.nindirect) G.nindirect
  rw [h.1, h.2] at h₁
  omega

/-- A logical block that is mapped lies in range and is mapped through its data slot. -/
theorem mapped_of_ne_zero {ip : Inode} {data : Nat → Block} {bn : Nat}
    (h : mapped G ip data bn ≠ 0) :
    bn < G.maxfile ∧ mapped G ip data bn = slotVal G ip data (dataSlot G bn) := by
  unfold mapped at *
  split at h
  · exact ⟨‹_›, if_pos ‹_›⟩
  · exact absurd rfl h

/-- A byte of a mapped block is the block's byte. -/
theorem fileByte_of_mapped {ip : Inode} {data : Nat → Block} {p : Nat}
    (h : mapped G ip data (p / G.bsize) ≠ 0) :
    fileByte G ip data p = data (mapped G ip data (p / G.bsize)) (p % G.bsize) := by
  simp [fileByte, h]

end DataSlot

section Frame

variable {G : Geometry} {A : Slot → Prop} {c c' : Ctx}

/-- A growth of the tree keeps the bytes of every block whose data slot it keeps: that
block is in use, so not taken, and is no indirect block. -/
theorem fileByte_of_grows (hc : Wf G c) (hg : Grows G A c c') {p : Nat}
    (hk : p / G.bsize < G.maxfile →
      slotVal G c'.ip c'.fs.buf.data (dataSlot G (p / G.bsize)) =
        slotVal G c.ip c.fs.buf.data (dataSlot G (p / G.bsize))) :
    fileByte G c'.ip c'.fs.buf.data p = fileByte G c.ip c.fs.buf.data p := by
  have hm : mapped G c'.ip c'.fs.buf.data (p / G.bsize) =
      mapped G c.ip c.fs.buf.data (p / G.bsize) := by
    unfold mapped
    split
    · exact hk ‹_›
    · rfl
  by_cases h0 : mapped G c.ip c.fs.buf.data (p / G.bsize) = 0
  · simp [fileByte, hm, h0]
  obtain ⟨hlt, he⟩ := mapped_of_ne_zero G h0
  have hv := dataSlot_valid G hlt
  rw [fileByte_of_mapped G (hm ▸ h0), fileByte_of_mapped G h0, hm]
  by_contra hne
  rcases hg.data _ (fun e => hne (congrFun e _)) with hf | hp
  · simp [he, hc.used _ hv (he ▸ h0)] at hf
  · obtain ⟨σ, hσ, hpσ, e⟩ := isPtr_slot G hp
    have := hc.inj σ _ hσ hv (e ▸ h0) (e.trans he)
    simp [this, dataSlot_not_isPtr] at hpσ

/-- A growth whose filled slots are pointer slots and `σ` keeps the data slots of all
logical blocks but the one whose data slot is `σ`. -/
theorem slot_keep_dataSlot (hg : Grows G A c c') {bn : Nat}
    (hA : ∀ τ, A τ → τ.isPtr ∨ τ = dataSlot G bn) {m : Nat} (hm : m ≠ bn)
    (hv : m < G.maxfile) :
    slotVal G c'.ip c'.fs.buf.data (dataSlot G m) = slotVal G c.ip c.fs.buf.data (dataSlot G m) :=
  hg.slot_keep (dataSlot_valid G hv) fun h => (hA _ h).elim
    (fun hp => by simp [dataSlot_not_isPtr] at hp) (fun e => hm (dataSlot_inj G e))

/-- A write of block `b`, no indirect block of the inode, changes the bytes of the logical
block that `b` is mapped to, and no other. -/
theorem fileByte_write {ip : Inode} {data : Nat → Block} {b : Nat} (hb : ¬ IsPtr G ip data b)
    (blk : Block) (p : Nat) :
    fileByte G ip (Function.update data b blk) p =
      if mapped G ip data (p / G.bsize) = b ∧ b ≠ 0 then blk (p % G.bsize)
      else fileByte G ip data p := by
  have hm : mapped G ip (Function.update data b blk) (p / G.bsize) =
      mapped G ip data (p / G.bsize) :=
    mapped_congr G (fun x hx => Function.update_noteq (by rintro rfl; exact hb hx) blk data) _
  simp only [fileByte, hm]
  by_cases h : mapped G ip data (p / G.bsize) = b ∧ b ≠ 0
  · rw [if_pos h, h.1, if_neg h.2, Function.update_same]
  · rw [if_neg h]
    by_cases hz : mapped G ip data (p / G.bsize) = 0
    · simp [hz]
    · simp [hz, Function.update_noteq (fun e => h ⟨e, e ▸ hz⟩)]

/-- A write of a block that is no indirect block of the inode keeps every slot. -/
theorem slotVal_writeBlock {c : Ctx} {b : Nat} (hb : ¬ IsPtr G c.ip c.fs.buf.data b)
    (blk : Block) {τ : Slot} (hτ : τ.Valid G) :
    slotVal G (c.writeBlock b blk).ip (c.writeBlock b blk).fs.buf.data τ =
      slotVal G c.ip c.fs.buf.data τ :=
  slotVal_congr G (fun x hx => Function.update_noteq (by rintro rfl; exact hb hx) _ _) hτ

end Frame

section Owned

variable {E : Env} {Meta : Nat → Prop} {s : Sys}

/-- Block ownership survives a change that keeps every slot of every inode, the
free-bit-vector and the pending frees. -/
theorem Owned.of_slots (hs : Owned E Meta s) {s' : Sys}
    (hslot : ∀ j τ, τ.Valid E.geo → slotVal E.geo (s'.inodes j) s'.fs.buf.data τ =
      slotVal E.geo (s.inodes j) s.fs.buf.data τ)
    (hfree : s'.fs.free = s.fs.free) (htx : s'.fs.tx.freeBlocks = s.fs.tx.freeBlocks) :
    Owned E Meta s' where
  inj i j σ τ hσ hτ h0 he := by
    rw [hslot i σ hσ] at h0 he
    rw [hslot j τ hτ] at he
    exact hs.inj i j σ τ hσ hτ h0 he
  used i τ hτ h0 := by
    rw [hslot i τ hτ] at h0 ⊢
    rw [hfree]
    exact hs.used i τ hτ h0
  meta b hb := hfree ▸ hs.meta b hb
  zero := hs.zero
  pending b hb := hfree ▸ hs.pending b (htx ▸ hb)
  accounted b hb hf := by
    rw [hfree] at hf
    rw [htx]
    rcases hs.accounted b hb hf with hm | ⟨j, τ, hτ, e⟩ | hp
    · exact .inl hm
    · exact .inr (.inl ⟨j, τ, hτ, (hslot j τ hτ).trans e⟩)
    · exact .inr (.inr hp)

/-- A growth of inode `i`'s tree keeps the bytes of every nonzero slot of every other
inode: they are in use, and no indirect block of inode `i`. -/
theorem Owned.data_other (hs : Owned E Meta s) {i j : Nat} {c : Ctx}
    (hg : Grows E.geo A (s.ctx i) c) (hij : j ≠ i) {τ : Slot} (hτ : τ.Valid E.geo)
    (h0 : slotVal E.geo (s.inodes j) s.fs.buf.data τ ≠ 0) :
    c.fs.buf.data (slotVal E.geo (s.inodes j) s.fs.buf.data τ) =
      s.fs.buf.data (slotVal E.geo (s.inodes j) s.fs.buf.data τ) := by
  by_contra hne
  rcases hg.data _ hne with hf | hp
  · simp [(hs.used j τ hτ h0).1] at hf
  · obtain ⟨σ, hσ, -, he⟩ := isPtr_slot E.geo hp
    exact hij (hs.inj j i τ σ hτ hσ h0 he.symm).1

/-- A growth of inode `i`'s tree keeps every byte of every other file. -/
theorem Owned.fileByte_other (hs : Owned E Meta s) {i j : Nat} {c : Ctx}
    (hg : Grows E.geo A (s.ctx i) c) (hij : j ≠ i) (p : Nat) :
    fileByte E.geo (s.inodes j) c.fs.buf.data p = fileByte E.geo (s.inodes j) s.fs.buf.data p := by
  have hptr : ∀ b, IsPtr E.geo (s.inodes j) s.fs.buf.data b →
      c.fs.buf.data b = s.fs.buf.data b := fun b hb => by
    obtain ⟨σ, hσ, -, rfl⟩ := isPtr_slot E.geo hb
    exact hs.data_other hg hij hσ hb.1
  refine fileByte_congr E.geo hptr fun h0 => ?_
  obtain ⟨hlt, he⟩ := mapped_of_ne_zero E.geo h0
  rw [he] at h0 ⊢
  exact hs.data_other hg hij (dataSlot_valid E.geo hlt) h0

/-- A block that a slot holds, other than a pointer slot, is no indirect block of any
inode. -/
theorem Owned.not_isPtr (hs : Owned E Meta s) {i j : Nat} {τ : Slot} (hτ : τ.Valid E.geo)
    (hp : τ.isPtr = false) (h0 : slotVal E.geo (s.inodes i) s.fs.buf.data τ ≠ 0) :
    ¬ IsPtr E.geo (s.inodes j) s.fs.buf.data (slotVal E.geo (s.inodes i) s.fs.buf.data τ) := by
  intro h
  obtain ⟨σ, hσ, hpσ, e⟩ := isPtr_slot E.geo h
  obtain ⟨-, rfl⟩ := hs.inj i j τ σ hτ hσ h0 e.symm
  simp [hp] at hpσ

/-- Writing a block that is no indirect block of any inode keeps every slot, so block
ownership. -/
theorem Owned.put_writeBlock (hs : Owned E Meta s) {i b : Nat}
    (hb : ∀ j, ¬ IsPtr E.geo (s.inodes j) s.fs.buf.data b) (blk : Block) :
    Owned E Meta (s.put i ((s.ctx i).writeBlock b blk)) :=
  hs.of_slots (fun j τ hτ => by
    simp only [Sys.put_inodes, Ctx.writeBlock_ip, Sys.ctx_ip, Function.update_eq_self,
      Sys.put_fs, Ctx.writeBlock_data]
    exact slotVal_congr E.geo (fun x hx => Function.update_noteq
      (by rintro rfl; exact hb j hx) _ _) hτ) rfl rfl

/-- A data block is mapped at one logical block of one file. -/
theorem Owned.mapped_eq_iff (hs : Owned E Meta s) {i bn b : Nat} (hbn : bn < E.geo.maxfile)
    (hb : slotVal E.geo (s.inodes i) s.fs.buf.data (dataSlot E.geo bn) = b) (hb0 : b ≠ 0)
    (j m : Nat) : mapped E.geo (s.inodes j) s.fs.buf.data m = b ↔ j = i ∧ m = bn := by
  constructor
  · intro h
    obtain ⟨hlt, he⟩ := mapped_of_ne_zero E.geo (h ▸ hb0)
    have := hs.inj j i _ _ (dataSlot_valid E.geo hlt) (dataSlot_valid E.geo hbn)
      (by rw [← he, h]; exact hb0) (by rw [← he, h, hb])
    exact ⟨this.1, dataSlot_inj E.geo this.2⟩
  · rintro ⟨rfl, rfl⟩
    rw [mapped, if_pos hbn, hb]

/-- A `bmap` of logical block `bn` of inode `i` that returns keeps every byte of every file,
but those of block `bn` of file `i` when it took that block without zeroing it. -/
theorem Owned.fileByte_bmap (hE : E.Sane) (hs : Owned E Meta s) {i bn b : Nat}
    {trans z : Bool} {c : Ctx} (hb : bmap E bn trans z (s.ctx i) = .ok b c)
    (hbn : bn < E.geo.maxfile) {j p : Nat} (h : z = true ∨ j ≠ i ∨ p / E.geo.bsize ≠ bn) :
    fileByte E.geo ((s.put i c).inodes j) c.fs.buf.data p =
      fileByte E.geo (s.inodes j) s.fs.buf.data p := by
  obtain ⟨hg, hw, hsb, hb0, hzero⟩ := Sv6Fs.bmap_ok hE (hs.wf i) hbn hb
  by_cases hji : j = i
  · rw [hji, Sys.put_inodes, Function.update_same]
    rw [hji] at h
    by_cases hpb : p / E.geo.bsize = bn
    · have hz : z = true := by simpa [hpb] using h
      have hv := dataSlot_valid E.geo hbn
      by_cases h0 : slotVal E.geo (s.inodes i) s.fs.buf.data (dataSlot E.geo bn) = 0
      · -- a block taken for a hole, zeroed: it reads as the hole did
        have hmap : mapped E.geo c.ip c.fs.buf.data (p / E.geo.bsize) = b := by
          rw [hpb, mapped, if_pos hbn, hsb]
        rw [fileByte_of_mapped E.geo (hmap ▸ hb0), hmap, hzero h0 hz]
        simp [fileByte, hpb, mapped, hbn, h0, zeroBlock]
      · exact fileByte_of_grows (hs.wf i) hg fun _ => hpb ▸
          (hg.slot _ hv).resolve_right fun ⟨_, h, _⟩ => h0 h
    · exact fileByte_of_grows (hs.wf i) hg fun hlt =>
        slot_keep_dataSlot hg (fun τ h => (Slot.eq_or_isPtr_of_mem_path h).symm) hpb hlt
  · rw [Sys.put_inodes, Function.update_noteq hji]
    exact hs.fileByte_other hg hji p

/-- A `bmap` that runs out of blocks keeps block ownership and every byte: it filled
pointer slots only. -/
theorem Owned.bmap_error_put (hE : E.Sane) (hs : Owned E Meta s) {i bn : Nat} {trans z : Bool}
    {c : Ctx} {e : Fault} (hb : bmap E bn trans z (s.ctx i) = .error e c)
    (hbn : bn < E.geo.maxfile) :
    e = .outOfBlocks ∧ Owned E Meta (s.put i c) ∧ (∃ a, c.ip = { s.inodes i with addrs := a }) ∧
      ∀ j p, fileByte E.geo ((s.put i c).inodes j) (s.put i c).fs.buf.data p =
        fileByte E.geo (s.inodes j) s.fs.buf.data p := by
  obtain ⟨he, hg, hw, -⟩ := Sv6Fs.bmap_error hE (hs.wf i) hbn hb
  refine ⟨he, hs.put hg hw, hg.ip, fun j p => ?_⟩
  by_cases hji : j = i
  · rw [hji, Sys.put_inodes, Function.update_same]
    exact fileByte_of_grows (hs.wf i) hg fun hlt => hg.slot_keep (dataSlot_valid E.geo hlt)
      (by simp [dataSlot_not_isPtr])
  · rw [Sys.put_inodes, Function.update_noteq hji]
    exact hs.fileByte_other hg hji p

end Owned

end Sv6Fs
