import Sv6Fs.Mapped

/-! # `bmap` as a map from logical blocks to disk blocks

`bmap` of a logical block below `MAXFILE` that does not run out of blocks returns the block
its data slot holds, filling the slots on the way where they were empty (`bmap_ok`).
From a state whose tree is well formed (`Wf`: the slots hold distinct blocks, all in use,
and block 0 is never free), which block ownership gives each inode (`Owned.wf`), that makes
`bmap` a stable, injective map.

* `bmap_of_maxfile_le`: from `MAXFILE` on it panics out of range, whatever the state.
* `bmap_maps_stably`: it returns a nonzero block, which `bmap` of the same logical block
  returns again with no change to the state, also after a `bmap` of another logical block;
  distinct logical blocks get distinct blocks, none of them a tier root or an indirect
  block. No `u32` byte offset `off` makes `bmap(off / BSIZE)` panic out of range exactly
  when `(2^32 - 1) / BSIZE < MAXFILE`, as it is for `BSIZE ≥ 4096`; at `BSIZE = 512` the
  last `u32` offset is past the tiers.
-/

namespace Sv6Fs

section BlockMap

variable {E : Env}

/-- An inode that holds no block has a well-formed tree, as long as block 0 is not free. -/
theorem Wf.of_empty {G : Geometry} {c : Ctx} (hempty : ∀ k, c.ip.addrs k = 0)
    (h0 : c.fs.free 0 = false) : Wf G c where
  inj _ _ hσ _ hs _ := absurd (slotVal_of_addrs_zero G _ (fun k _ => hempty k) hσ) hs
  used _ hτ hs := absurd (slotVal_of_addrs_zero G _ (fun k _ => hempty k) hτ) hs
  zero := h0

/-- Past the last tier, `bmap` panics and changes nothing. -/
theorem bmap_of_maxfile_le {bn : Nat} (h : E.geo.maxfile ≤ bn) (trans z : Bool) (c : Ctx) :
    bmap E bn trans z c = .error (.panic "bmap: out of range") c := by
  unfold Geometry.maxfile at h
  have h₁ : ¬ bn < E.geo.ndirect := by omega
  have h₂ : ¬ bn - E.geo.ndirect < E.geo.nindirect := by omega
  have h₃ : E.geo.nindirect * E.geo.nindirect ≤ bn - E.geo.ndirect - E.geo.nindirect := by omega
  rw [bmap, if_neg h₁, if_neg h₂, if_pos h₃, FsM.throw_apply]

/-- With blocks of 4096 bytes or more, the doubly-indirect tier alone reaches past `2^32`
bytes. -/
theorem u32_blocks_lt_maxfile {G : Geometry} (hb : 4096 ≤ G.bsize) :
    4294967295 / G.bsize < G.maxfile := by
  have h₁ : 1024 ≤ G.nindirect := by unfold Geometry.nindirect; omega
  have h₂ : 1024 * 1024 ≤ G.nindirect * G.nindirect := Nat.mul_le_mul h₁ h₁
  have h₃ : 4294967295 / G.bsize ≤ 4294967295 / 4096 := Nat.div_le_div_left hb (by decide)
  unfold Geometry.maxfile
  omega

variable {c : Ctx}

/-- `bmap` from a state whose tree is well formed, with an allocator that hands out free
blocks: it returns a nonzero block for each logical block below `MAXFILE` it does not run
out of blocks for, and a second `bmap` of that logical block, right after or after a
`bmap` of another one, returns the same block and changes nothing. The blocks of two
logical blocks differ, and neither is a tier root or an indirect block of the inode. No
`u32` byte offset makes `bmap` panic out of range exactly when `(2^32 - 1) / BSIZE` is
below `MAXFILE`, which `BSIZE ≥ 4096` ensures. -/
theorem bmap_maps_stably (hE : E.Sane) (hc : Wf E.geo c) :
    (∀ bn trans z b c₁, bn < E.geo.maxfile → bmap E bn trans z c = .ok b c₁ →
      b ≠ 0 ∧ ∀ trans' z', bmap E bn trans' z' c₁ = .ok b c₁) ∧
    (∀ bn bn' trans z trans' z' b b' c₁ c₂, bn < E.geo.maxfile → bn' < E.geo.maxfile →
      bn ≠ bn' → bmap E bn trans z c = .ok b c₁ → bmap E bn' trans' z' c₁ = .ok b' c₂ →
      b ≠ b' ∧ (∀ trans'' z'', bmap E bn trans'' z'' c₂ = .ok b c₂) ∧
        ¬ IsPtr E.geo c₂.ip c₂.fs.buf.data b ∧ ¬ IsPtr E.geo c₂.ip c₂.fs.buf.data b') ∧
    ((∀ off < 4294967296, ∀ trans z e c₁, bmap E (off / E.geo.bsize) trans z c = .error e c₁ →
        e = .outOfBlocks) ↔ 4294967295 / E.geo.bsize < E.geo.maxfile) ∧
    (4096 ≤ E.geo.bsize → 4294967295 / E.geo.bsize < E.geo.maxfile) := by
  refine ⟨fun bn trans z b c₁ hbn h => ?_, fun bn bn' trans z trans' z' b b' c₁ c₂ hbn hbn' hne h h' => ?_,
    ⟨fun H => ?_, fun hlt off hoff trans z e c₁ h => ?_⟩, u32_blocks_lt_maxfile⟩
  · obtain ⟨-, -, hsb, hb0, -⟩ := bmap_ok hE hc hbn h
    exact ⟨hb0, fun trans' z' => hsb ▸ bmap_of_mapped hbn (hsb ▸ hb0) trans' z'⟩
  · obtain ⟨-, hw₁, hsb, hb0, -⟩ := bmap_ok hE hc hbn h
    obtain ⟨hg₂, hw₂, hsb', hb0', -⟩ := bmap_ok hE hw₁ hbn' h'
    have hv := dataSlot_valid E.geo hbn
    have hkeep : slotVal E.geo c₂.ip c₂.fs.buf.data (dataSlot E.geo bn) = b :=
      ((hg₂.slot _ hv).resolve_right fun ⟨_, h0, _⟩ => hb0 (hsb ▸ h0)).trans hsb
    refine ⟨fun he => hne (dataSlot_inj E.geo (hw₂.inj _ _ hv (dataSlot_valid E.geo hbn')
        (hkeep ▸ hb0) (hkeep.trans (he.trans hsb'.symm)))),
      fun trans'' z'' => hkeep ▸ bmap_of_mapped hbn (hkeep ▸ hb0) trans'' z'',
      hkeep ▸ hw₂.inj.not_isPtr E.geo hbn (hkeep ▸ hb0),
      hsb' ▸ hw₂.inj.not_isPtr E.geo hbn' (hsb' ▸ hb0')⟩
  · by_contra hge
    cases H 4294967295 (by decide) false false _ _
      (bmap_of_maxfile_le (not_lt.1 hge) false false c)
  · exact (bmap_error hE hc (lt_of_le_of_lt (Nat.div_le_div_right (by omega)) hlt) h).1

/-- An empty inode with `BSIZE = 4096` and every block but 0 free: no `u32` byte offset
makes `bmap` panic out of range. -/
theorem bmap_maps_stably_4096 :
    let E : Env := Env.firstFit ⟨4096, 10, 14, by decide⟩ 100
    let c : Ctx := ⟨⟨1, .file, 0, 0, 1, 0, 0, fun _ => 0, none, 0, 1⟩,
      ⟨⟨fun _ => zeroBlock, fun _ => false, fun _ => zeroBlock⟩, fun b => decide (b ≠ 0),
        Transaction.empty⟩⟩
    (E.Sane ∧ Wf E.geo c) ∧ ∀ off < 4294967296, ∀ trans z e c₁,
      bmap E (off / 4096) trans z c = .error e c₁ → e = .outOfBlocks := by
  intro E c
  have hE : E.Sane := Env.firstFit_sane _ (by decide)
  have hc : Wf E.geo c := Wf.of_empty (fun _ => rfl) rfl
  exact ⟨⟨hE, hc⟩, (bmap_maps_stably hE hc).2.2.1.2 ((bmap_maps_stably hE hc).2.2.2 (by decide))⟩

/-- With `BSIZE = 512` the tiers end at logical block 16522, and the last `u32` byte offset
is in block 8388607: from an empty inode `bmap` of it panics out of range. -/
example :
    let E : Env := Env.firstFit ⟨512, 10, 14, by decide⟩ 100
    let c : Ctx := ⟨⟨1, .file, 0, 0, 1, 0, 0, fun _ => 0, none, 0, 1⟩,
      ⟨⟨fun _ => zeroBlock, fun _ => false, fun _ => zeroBlock⟩, fun b => decide (b ≠ 0),
        Transaction.empty⟩⟩
    bmap E (4294967295 / 512) false false c = .error (.panic "bmap: out of range") c :=
  bmap_of_maxfile_le (by decide) false false _

end BlockMap

end Sv6Fs
