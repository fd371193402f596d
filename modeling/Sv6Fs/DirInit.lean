import Sv6Fs.FileModel
import Sv6Fs.DirScan

/-! # What `dir_init` builds

`dir_init` on a directory whose index is not built reads the directory's blocks below its
size, one after another, and scans the records of each into the index. When
`sizeof(dirent)` divides `BSIZE`, the index it builds is the decoding `dirIndexOf` of the
file's bytes, whatever the blocks held.

* `Owned.dirInitStep`: one block of the loop, read through `bmap`.
* `Owned.dirInitBlocks_ok`: the loop over the blocks; it panics only when a hole needs a
  block and none is left.
* `Owned.dirInit_fresh`: `dir_init` builds `dirIndexOf` of the file's bytes, maps every
  block below the size, sets `dir_offset` past them and changes no byte.
* `dirInit_dirOffset`: the cursor `dir_init` leaves is the size rounded up to whole blocks,
  so it is the size only when the size is a multiple of `BSIZE`; `dirInit_dirOffset_18` is
  a directory of one 18-byte record in a 36-byte block.
-/

namespace Sv6Fs

theorem Grows.slot_stable {G : Geometry} {A : Slot → Prop} {c c' : Ctx} (hg : Grows G A c c')
    {τ : Slot} (hτ : τ.Valid G) (h0 : slotVal G c.ip c.fs.buf.data τ ≠ 0) :
    slotVal G c'.ip c'.fs.buf.data τ = slotVal G c.ip c.fs.buf.data τ :=
  (hg.slot τ hτ).resolve_right fun ⟨_, h, _⟩ => h0 h

section Records

variable {G : Geometry}

theorem recordsPerBlock_mul (hdiv : G.direntSize ∣ G.bsize) :
    recordsPerBlock G * G.direntSize = G.bsize := by
  rw [recordsPerBlock, blockRoundup, if_neg (by simp [Nat.mod_eq_zero_of_dvd hdiv]),
    Nat.div_mul_cancel hdiv]

/-- Record `r` lies in one block, block `r / recordsPerBlock`. -/
theorem record_in_block (hdiv : G.direntSize ∣ G.bsize) (r : Nat) :
    r * G.direntSize % G.bsize + G.direntSize ≤ G.bsize ∧
      r * G.direntSize / G.bsize = r / recordsPerBlock G := by
  have hds : 0 < G.direntSize := by simp [Geometry.direntSize]
  have hpb : 0 < recordsPerBlock G :=
    Nat.pos_of_ne_zero fun h => by have := G.bsize_pos; rw [← recordsPerBlock_mul hdiv, h] at this; simp at this
  rw [← recordsPerBlock_mul hdiv, Nat.mul_mod_mul_right, Nat.mul_div_mul_right _ _ hds]
  refine ⟨?_, rfl⟩
  calc r % recordsPerBlock G * G.direntSize + G.direntSize
      = (r % recordsPerBlock G + 1) * G.direntSize := (Nat.succ_mul _ _).symm
    _ ≤ recordsPerBlock G * G.direntSize := Nat.mul_le_mul_right _ (Nat.mod_lt r hpb)

/-- The index of `n + m` records: that of `n`, then a scan of `m` more. -/
theorem dirIndexOf_add (F : Nat → UInt8) (n m : Nat) :
    dirIndexOf G F (n + m) = scanRecords G F m n (dirIndexOf G F n) (n * G.direntSize) := by
  rw [← scanRecords_eq_dirIndexOf, ← scanRecords_eq_dirIndexOf, scanRecords_add, Nat.zero_add,
    Nat.zero_add]

end Records

section DirInit

variable {E : Env} {Meta : Nat → Prop} {s : Sys} {i : Nat}

/-- Block ownership and the files only see an inode's addresses and size. -/
theorem Owned.put_ip {c : Ctx} (hs : Owned E Meta (s.put i c)) (ip : Inode)
    (ha : ip.addrs = c.ip.addrs) (hsize : ip.size = c.ip.size) :
    Owned E Meta (s.put i ⟨ip, c.fs⟩) ∧ (s.put i ⟨ip, c.fs⟩).files E = (s.put i c).files E := by
  refine ⟨hs.put_addrs ha, funext fun j => ?_⟩
  by_cases hj : j = i
  · subst hj
    simp only [Sys.files, Sys.put_inodes, Function.update_same, Sys.put_fs, hsize,
      fileByte_of_addrs E.geo ha]
  · simp [Sys.files, hj]

/-- One block of `dir_init`'s loop: `bmap` returned block `b`, whose records go into the
index; the index is then that of the blocks up to this one, the block is mapped, and block
ownership, the files and every block a slot held are kept. -/
theorem Owned.dirInitStep (hE : E.Sane) (hdiv : E.geo.direntSize ∣ E.geo.bsize)
    (hs : Owned E Meta s) {bn₀ b : Nat} {c₁ : Ctx}
    (hd : (s.inodes i).dir = some (dirIndexOf E.geo (s.files E i).bytes (bn₀ * recordsPerBlock E.geo)))
    (hbn : bn₀ < E.geo.maxfile) (hb : bmap E bn₀ false true (s.ctx i) = .ok b c₁) :
    let c₂ : Ctx := ⟨{ c₁.ip with dir := c₁.ip.dir.map (fun d =>
      scanRecords E.geo (c₁.fs.buf.data b) (recordsPerBlock E.geo) 0 d (bn₀ * E.geo.bsize)) }, c₁.fs⟩
    Owned E Meta (s.put i c₂) ∧ (s.put i c₂).files E = s.files E ∧
      (∃ a, c₂.ip = { s.inodes i with addrs := a, dir := some (dirIndexOf E.geo (s.files E i).bytes
        ((bn₀ + 1) * recordsPerBlock E.geo)) }) ∧
      (∀ τ, τ.Valid E.geo → slotVal E.geo (s.inodes i) s.fs.buf.data τ ≠ 0 →
        slotVal E.geo c₂.ip c₂.fs.buf.data τ = slotVal E.geo (s.inodes i) s.fs.buf.data τ) ∧
      slotVal E.geo c₂.ip c₂.fs.buf.data (dataSlot E.geo bn₀) ≠ 0 := by
  intro c₂
  have hq : bn₀ * E.geo.bsize / E.geo.bsize = bn₀ := Nat.mul_div_cancel _ E.geo.bsize_pos
  have hr : bn₀ * E.geo.bsize % E.geo.bsize = 0 := Nat.mul_mod_left _ _
  obtain ⟨hg, -, hsb, hb0, -⟩ := Sv6Fs.bmap_ok hE (hs.wf i) hbn hb
  obtain ⟨hs₁, ⟨a₁, hip₁⟩, hbytes₁, hread⟩ := hs.readChunk hE (m := E.geo.bsize) (by rwa [hq])
    (by rwa [hq]) (by rw [hr]; exact Nat.le_refl _)
  have hf₁ : (s.put i c₁).files E = s.files E := by
    rw [Sys.files_put (f := s.files E i) (by rw [hip₁]; rfl) fun j p => by
      rw [hbytes₁]; by_cases hj : j = i <;> simp [hj], Function.update_eq_self]
  obtain ⟨hs₂, hf₂⟩ := hs₁.put_ip (c := c₁) c₂.ip rfl rfl
  have hscan : scanRecords E.geo (c₁.fs.buf.data b) (recordsPerBlock E.geo) 0
      (dirIndexOf E.geo (s.files E i).bytes (bn₀ * recordsPerBlock E.geo)) (bn₀ * E.geo.bsize) =
      dirIndexOf E.geo (s.files E i).bytes ((bn₀ + 1) * recordsPerBlock E.geo) := by
    rw [Nat.succ_mul, dirIndexOf_add, Nat.mul_assoc, recordsPerBlock_mul hdiv]
    refine scanRecords_shift _ _ _ _ _ fun j hj => ?_
    rw [recordsPerBlock_mul hdiv] at hj
    have := hread j hj
    rw [hr] at this
    simpa [Nat.mul_assoc, recordsPerBlock_mul hdiv] using this
  refine ⟨hs₂, hf₂.trans hf₁, ⟨a₁, ?_⟩, fun τ hτ h0 => hg.slot_stable hτ h0, hsb ▸ hb0⟩
  simp only [c₂, hip₁, hd, Option.map_some', hscan]

/-- The loop of `dir_init` from block `bn₀`, with the index built from the blocks before it:
it either panics for a hole it cannot fill, or reads `n` more blocks, each mapped afterwards,
into the index, keeping block ownership, every file and every block a slot held. -/
theorem Owned.dirInitBlocks_ok (hE : E.Sane) (hdiv : E.geo.direntSize ∣ E.geo.bsize) :
    ∀ n bn₀ (s : Sys), Owned E Meta s →
      (s.inodes i).dir = some (dirIndexOf E.geo (s.files E i).bytes (bn₀ * recordsPerBlock E.geo)) →
      bn₀ + n ≤ E.geo.maxfile →
      (∃ c', dirInitBlocks E n (bn₀ * E.geo.bsize) (bn₀ * E.geo.bsize) (s.ctx i) =
          .ok ((bn₀ + n) * E.geo.bsize) c' ∧ Owned E Meta (s.put i c') ∧
        (∃ a, c'.ip = { s.inodes i with addrs := a, dir := some (dirIndexOf E.geo
          (s.files E i).bytes ((bn₀ + n) * recordsPerBlock E.geo)) }) ∧
        (s.put i c').files E = s.files E ∧
        (∀ τ, τ.Valid E.geo → slotVal E.geo (s.inodes i) s.fs.buf.data τ ≠ 0 →
          slotVal E.geo c'.ip c'.fs.buf.data τ = slotVal E.geo (s.inodes i) s.fs.buf.data τ) ∧
        ∀ bn, bn₀ ≤ bn → bn < bn₀ + n → slotVal E.geo c'.ip c'.fs.buf.data (dataSlot E.geo bn) ≠ 0) ∨
      ((∃ bn, bn₀ ≤ bn ∧ bn < bn₀ + n ∧
          slotVal E.geo (s.inodes i) s.fs.buf.data (dataSlot E.geo bn) = 0) ∧
        ∃ c', dirInitBlocks E n (bn₀ * E.geo.bsize) (bn₀ * E.geo.bsize) (s.ctx i) =
          .error (.panic "dir_init: out of blocks") c')
  | 0, bn₀, s, hs, hd, _ => .inl ⟨s.ctx i, by simp [dirInitBlocks], by simpa using hs,
      ⟨(s.inodes i).addrs, by rw [Nat.add_zero, ← hd]; rfl⟩, by simp, fun _ _ _ => rfl,
      fun _ h₁ h₂ => absurd h₂ (by omega)⟩
  | n + 1, bn₀, s, hs, hd, hn => by
    have hbn : bn₀ < E.geo.maxfile := by omega
    rw [dirInitBlocks]
    simp only [ne_eq, not_true_eq_false, if_false, FsM.bind_apply, FsM.pure_apply,
      Nat.mul_div_cancel _ E.geo.bsize_pos]
    rcases hx : catchOob (bmap E bn₀ false true) (s.ctx i) with ⟨_ | b, c₁⟩ | ⟨e, c₁⟩
    · -- out of blocks: the block was a hole
      obtain ⟨_, ⟨⟩, -⟩ | ⟨-, hb⟩ := catchOob_ok hx
      refine .inr ⟨⟨bn₀, le_rfl, by omega, ?_⟩, c₁, rfl⟩
      by_contra h0
      rw [bmap_of_mapped hbn h0] at hb
      cases hb
    · obtain ⟨_, ⟨⟩, hb⟩ | ⟨⟨⟩, -⟩ := catchOob_ok hx
      obtain ⟨hs₂, hf₂, ⟨a₂, hip₂⟩, hst₂, hm₂⟩ := hs.dirInitStep hE hdiv hd hbn hb
      simp only [FsM.bind_apply, FsM.get_apply, FsM.modify_apply]
      rw [← Nat.succ_mul, recordsPerBlock_mul hdiv, ← Nat.succ_mul]
      set c₂ : Ctx := ⟨{ c₁.ip with dir := c₁.ip.dir.map (fun d =>
        scanRecords E.geo (c₁.fs.buf.data b) (recordsPerBlock E.geo) 0 d (bn₀ * E.geo.bsize)) },
        c₁.fs⟩
      have hd₂ : ((s.put i c₂).inodes i).dir = some (dirIndexOf E.geo ((s.put i c₂).files E i).bytes
          ((bn₀ + 1) * recordsPerBlock E.geo)) := by
        rw [hf₂, Sys.put_inodes, Function.update_same, hip₂]
      rcases Owned.dirInitBlocks_ok hE hdiv n (bn₀ + 1) (s.put i c₂) hs₂ hd₂ (by omega) with
        ⟨c', he, hs', ⟨a, hip⟩, hf, hst, hm⟩ | ⟨⟨bn, h₁, h₂, h0⟩, c', he⟩
      · simp only [Sys.put_ctx, Sys.put_inodes, Function.update_same, Sys.put_fs, Sys.put_put, hf₂]
          at he hs' hf hst
        refine .inl ⟨c', by rw [he, show bn₀ + 1 + n = bn₀ + (n + 1) by omega], hs', ⟨a, ?_⟩, hf,
          fun τ hτ h0 => (hst τ hτ (hst₂ τ hτ h0 ▸ h0)).trans (hst₂ τ hτ h0), fun bn h₁ h₂ => ?_⟩
        · rw [hip, Sys.put_inodes, Function.update_same, hip₂, hf₂,
            show bn₀ + 1 + n = bn₀ + (n + 1) by omega]
        · rcases Nat.eq_or_lt_of_le h₁ with rfl | h₁
          · exact hst _ (dataSlot_valid E.geo hbn) hm₂ ▸ hm₂
          · exact hm bn h₁ (by omega)
      · simp only [Sys.put_ctx, Sys.put_inodes, Function.update_same, Sys.put_fs] at he h0
        refine .inr ⟨⟨bn, by omega, by omega, ?_⟩, c', he⟩
        by_contra hne
        exact hne (hst₂ _ (dataSlot_valid E.geo (by omega)) hne ▸ h0)
    · exact absurd (hs.bmap_error_put hE (catchOob_error hx).2 hbn).1 (catchOob_error hx).1

/-- `dir_init` of a directory whose index is not built: it panics for a hole it cannot
fill, or builds the index of the records of the blocks below the size, maps every one of
those blocks, sets `dir_offset` past them, and keeps block ownership, the files and every
block a slot held. -/
theorem Owned.dirInit_fresh (hE : E.Sane) (hdiv : E.geo.direntSize ∣ E.geo.bsize)
    (hs : Owned E Meta s) (hnone : (s.inodes i).dir = none) (htype : (s.inodes i).type = .dir)
    (hnb : blockRoundup E.geo.bsize (s.inodes i).size ≤ E.geo.maxfile) :
    (∃ c', dirInit E (s.ctx i) = .ok () c' ∧ Owned E Meta (s.put i c') ∧
        (∃ a, c'.ip = { s.inodes i with
          addrs := a
          dir := some (dirIndexOf E.geo (s.files E i).bytes
            (blockRoundup E.geo.bsize (s.inodes i).size * recordsPerBlock E.geo))
          dirOffset := blockRoundup E.geo.bsize (s.inodes i).size * E.geo.bsize }) ∧
        (s.put i c').files E = s.files E ∧
        (∀ τ, τ.Valid E.geo → slotVal E.geo (s.inodes i) s.fs.buf.data τ ≠ 0 →
          slotVal E.geo c'.ip c'.fs.buf.data τ = slotVal E.geo (s.inodes i) s.fs.buf.data τ) ∧
        ∀ bn < blockRoundup E.geo.bsize (s.inodes i).size,
          slotVal E.geo c'.ip c'.fs.buf.data (dataSlot E.geo bn) ≠ 0) ∨
      ((∃ bn < blockRoundup E.geo.bsize (s.inodes i).size,
          slotVal E.geo (s.inodes i) s.fs.buf.data (dataSlot E.geo bn) = 0) ∧
        ∃ c', dirInit E (s.ctx i) = .error (.panic "dir_init: out of blocks") c') := by
  set nb := blockRoundup E.geo.bsize (s.inodes i).size
  set c₀ : Ctx := ⟨{ s.inodes i with dir := some DirIndex.empty }, s.fs⟩
  obtain ⟨hs₀, hf₀⟩ : Owned E Meta (s.put i c₀) ∧ (s.put i c₀).files E = s.files E := by
    have h := Owned.put_ip (c := s.ctx i) (by rwa [Sys.put_self]) c₀.ip rfl rfl
    rwa [Sys.put_self] at h
  have hd₀ : ((s.put i c₀).inodes i).dir =
      some (dirIndexOf E.geo ((s.put i c₀).files E i).bytes (0 * recordsPerBlock E.geo)) := by
    simp [c₀, dirIndexOf_zero]
  have hrun : dirInit E (s.ctx i) = (do
      let dirOffset ← dirInitBlocks E nb (0 * E.geo.bsize) (0 * E.geo.bsize)
      modify fun c => { c with ip := { c.ip with dirOffset := dirOffset } } : FsM Unit) c₀ := by
    simp [dirInit, hnone, htype, nb, c₀]
  rcases hs₀.dirInitBlocks_ok hE hdiv nb 0 (s.put i c₀) hd₀ (by omega) with
    ⟨c₁, he, hs₁, ⟨a, hip⟩, hf, hst, hm⟩ | ⟨⟨bn, -, h₂, h0⟩, c₁, he⟩
  · simp only [Sys.put_ctx, Sys.put_inodes, Function.update_same, Sys.put_put, hf₀] at he hs₁ hip hf hst hm
    obtain ⟨hs', hf'⟩ := hs₁.put_ip { c₁.ip with dirOffset := nb * E.geo.bsize } rfl rfl
    refine .inl ⟨_, by rw [hrun, FsM.bind_apply, he, Nat.zero_add]; rfl, hs', ⟨a, ?_⟩,
      hf'.trans hf, fun τ hτ h0 => hst τ hτ h0, fun bn h => hm bn (Nat.zero_le _) (by omega)⟩
    simp [hip, c₀]
  · simp only [Sys.put_ctx, Sys.put_inodes, Function.update_same] at he h0
    exact .inr ⟨⟨bn, by omega, h0⟩, c₁, by rw [hrun, FsM.bind_apply, he]⟩

/-- `BLOCKROUNDUP(off) * BSIZE` is `off` exactly when `off` is a multiple of `BSIZE`. -/
theorem blockRoundup_mul_eq_iff {bsize off : Nat} (hb : 0 < bsize) :
    blockRoundup bsize off * bsize = off ↔ off % bsize = 0 := by
  have h1 := Nat.div_add_mod off bsize
  have h2 := Nat.mod_lt off hb
  rw [blockRoundup, Nat.mul_comm]
  split_ifs
  · rw [Nat.mul_succ]; omega
  · omega

/-- With `sizeof(dirent)` dividing `BSIZE`, `dir_init` of a directory whose index is not
built panics for a hole it cannot fill, or returns with the size as it was and the
insertion cursor `dir_offset` at the end of the last block below the size: the size
rounded up to a multiple of `BSIZE`, which is the size exactly when the size is such a
multiple. -/
theorem dirInit_dirOffset (hE : E.Sane) (hdiv : E.geo.direntSize ∣ E.geo.bsize)
    (hs : Owned E Meta s) (hnone : (s.inodes i).dir = none) (htype : (s.inodes i).type = .dir)
    (hnb : blockRoundup E.geo.bsize (s.inodes i).size ≤ E.geo.maxfile) :
    (∃ c', dirInit E (s.ctx i) = .ok () c' ∧ c'.ip.size = (s.inodes i).size ∧
      c'.ip.dirOffset = blockRoundup E.geo.bsize (s.inodes i).size * E.geo.bsize ∧
      (c'.ip.dirOffset = c'.ip.size ↔ (s.inodes i).size % E.geo.bsize = 0)) ∨
    ((∃ bn < blockRoundup E.geo.bsize (s.inodes i).size,
        slotVal E.geo (s.inodes i) s.fs.buf.data (dataSlot E.geo bn) = 0) ∧
      ∃ c', dirInit E (s.ctx i) = .error (.panic "dir_init: out of blocks") c') := by
  rcases hs.dirInit_fresh hE hdiv hnone htype hnb with ⟨c', he, -, ⟨a, hip⟩, -⟩ | h
  · refine .inl ⟨c', he, by rw [hip], by rw [hip], ?_⟩
    rw [hip]
    exact blockRoundup_mul_eq_iff E.geo.bsize_pos
  · exact .inr h

/-- A directory of 18 bytes, one record, in block 1 with `BSIZE = 36`: `dir_init` returns
with `dir_offset` 36, so the next entry would go 18 bytes past the end. -/
theorem dirInit_dirOffset_18 :
    let E : Env := Env.firstFit ⟨36, 1, 14, by decide⟩ 8
    let s : Sys := ⟨fun j => ⟨j, .dir, 0, 0, 1, 18, 0, fun k => if j = 1 ∧ k = 0 then 1 else 0,
      none, 0, 1⟩, ⟨⟨fun _ => zeroBlock, fun _ => false, fun _ => zeroBlock⟩,
      fun b => decide (1 < b), Transaction.empty⟩⟩
    ∃ c', dirInit E (s.ctx 1) = .ok () c' ∧ c'.ip.size = 18 ∧ c'.ip.dirOffset = 36 := by
  intro E s
  have hv : Slot.Valid E.geo (.direct 0) := show 0 < 1 by decide
  have hslot : ∀ j τ, τ.Valid E.geo →
      slotVal E.geo (s.inodes j) s.fs.buf.data τ = if j = 1 ∧ τ = .direct 0 then 1 else 0 := by
    intro j τ hτ
    cases τ <;> simp_all [E, s, Env.firstFit, Slot.Valid, slotVal, entryAt]
  have hs : Owned E (· = 0) s := {
    inj := fun i j σ τ hσ hτ h0 he => by
      rw [hslot i σ hσ] at h0 he
      rw [hslot j τ hτ] at he
      split_ifs at h0 he <;> simp_all
    used := fun i τ hτ h0 => by
      rw [hslot i τ hτ] at h0 ⊢
      split_ifs at h0 ⊢ <;> simp_all [s]
    meta := fun b hb => by subst hb; rfl
    zero := rfl
    pending := fun b hb => by simp [s, Transaction.empty] at hb
    accounted := fun b _ hb => by
      have hb1 : b ≤ 1 := by simpa [s] using hb
      rcases Nat.le_one_iff_eq_zero_or_eq_one.1 hb1 with rfl | rfl
      · exact .inl rfl
      · exact .inr (.inl ⟨1, .direct 0, hv, (hslot 1 (.direct 0) hv).trans (if_pos ⟨rfl, rfl⟩)⟩) }
  rcases dirInit_dirOffset (i := 1) (Env.firstFit_sane _ (by decide)) (by decide) hs rfl rfl
    (by decide) with ⟨c', he, hsize, hoff, -⟩ | ⟨⟨bn, hbn, h0⟩, -⟩
  · exact ⟨c', he, hsize, by rw [hoff]; decide⟩
  · have hbn0 : bn = 0 := by simpa [E, Env.firstFit, blockRoundup] using hbn
    subst hbn0
    rw [show dataSlot E.geo 0 = .direct 0 from rfl, hslot 1 _ hv, if_pos ⟨rfl, rfl⟩] at h0
    exact absurd h0 one_ne_zero

end DirInit


end Sv6Fs
