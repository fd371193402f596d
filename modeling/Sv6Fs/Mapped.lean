import Sv6Fs.FileModel

/-! # Requests over mapped blocks, and the counts they return

A request whose blocks are all mapped allocates nothing: `bmap` only reads the tree, so
no allocation can fail. Writing one of those blocks keeps every slot of the inode, since
the slots hold distinct blocks (`Inj`) and a data block is then none of the indirect
blocks. Over such a range `writei` copies the whole request, and `readi` copies the whole
of a request below the size.

Both return their count as an `int`: `writei` keeps it in `int tot` and `readi` returns its
`u32 n`. A count of `2^31` bytes or more comes back as `count - 2^32`, a negative number,
which a caller cannot tell from a failure.

* `writeiLoop_of_mapped`, `readiLoop_of_mapped`: the loops over mapped blocks.
* `rw_count_of_mapped`: `writei` and `readi` over mapped blocks copy all `n` bytes and
  return `n` below `2^31`, `n - 2^32` from `2^31` on; `rw_count_of_mapped_2gib` is a
  request of `2^31` bytes at `BSIZE = 4096`.
-/

namespace Sv6Fs

section Frame

variable (G : Geometry) {ip : Inode} {data : Nat → Block}

/-- The block a data slot holds is none of the inode's indirect blocks. -/
theorem Inj.not_isPtr (hinj : Inj G ip data) {bn : Nat} (hbn : bn < G.maxfile)
    (h0 : slotVal G ip data (dataSlot G bn) ≠ 0) :
    ¬ IsPtr G ip data (slotVal G ip data (dataSlot G bn)) := by
  intro hp
  obtain ⟨τ, hτ, hpτ, he⟩ := isPtr_slot G hp
  have hστ := hinj _ _ (dataSlot_valid G hbn) hτ h0 he.symm
  rw [← hστ, dataSlot_not_isPtr] at hpτ
  exact Bool.false_ne_true hpτ

/-- Writing the block of a mapped logical block `bn` changes the file's bytes in that
block alone. -/
theorem fileByte_write_mapped (hinj : Inj G ip data) {bn : Nat} (hbn : bn < G.maxfile)
    (h0 : slotVal G ip data (dataSlot G bn) ≠ 0) (blk : Block) (p : Nat) :
    fileByte G ip (Function.update data (slotVal G ip data (dataSlot G bn)) blk) p =
      if p / G.bsize = bn then blk (p % G.bsize) else fileByte G ip data p := by
  rw [fileByte_write (hinj.not_isPtr G hbn h0)]
  by_cases hp : p / G.bsize = bn
  · rw [if_pos ⟨by rw [hp, mapped, if_pos hbn], h0⟩, if_pos hp]
  · rw [if_neg hp, if_neg]
    rintro ⟨hm, -⟩
    have hm0 : mapped G ip data (p / G.bsize) ≠ 0 := by rw [hm]; exact h0
    obtain ⟨hlt, he⟩ := mapped_of_ne_zero G hm0
    rw [he] at hm hm0
    exact hp (dataSlot_inj G (hinj _ _ (dataSlot_valid G hlt) (dataSlot_valid G hbn) hm0 hm))

/-- ... and keeps every indirect block, ... -/
theorem Inj.update_isPtr (hinj : Inj G ip data) {bn : Nat} (hbn : bn < G.maxfile)
    (h0 : slotVal G ip data (dataSlot G bn) ≠ 0) (blk : Block) (x : Nat) (hx : IsPtr G ip data x) :
    Function.update data (slotVal G ip data (dataSlot G bn)) blk x = data x :=
  Function.update_noteq (by rintro rfl; exact hinj.not_isPtr G hbn h0 hx) _ _

/-- ... so every slot, which still hold distinct blocks. -/
theorem Inj.write_mapped (hinj : Inj G ip data) {bn : Nat} (hbn : bn < G.maxfile)
    (h0 : slotVal G ip data (dataSlot G bn) ≠ 0) (blk : Block) :
    Inj G ip (Function.update data (slotVal G ip data (dataSlot G bn)) blk) := by
  have hs := fun τ (hτ : Slot.Valid G τ) => slotVal_congr G (hinj.update_isPtr G hbn h0 blk) hτ
  exact fun σ τ hσ hτ h0' he => hinj σ τ hσ hτ (by rwa [← hs σ hσ])
    (by rwa [← hs σ hσ, ← hs τ hτ])

/-- A byte of a chunk `[off, off + m)` inside one mapped block is the block's byte at its
offset there. -/
theorem fileByte_chunk {off m p : Nat} (hbn : off / G.bsize < G.maxfile)
    (h0 : slotVal G ip data (dataSlot G (off / G.bsize)) ≠ 0) (hm : m ≤ G.bsize - off % G.bsize)
    (hp : off ≤ p ∧ p < off + m) :
    fileByte G ip data p =
      data (slotVal G ip data (dataSlot G (off / G.bsize))) (off % G.bsize + (p - off)) := by
  obtain ⟨hq, h1, -⟩ := (chunk_iff G.bsize_pos hm).1 hp
  have hmod := chunk_mod G.bsize_pos hm hp
  rw [fileByte_of_mapped G (by rw [hq, mapped, if_pos hbn]; exact h0), hq, mapped, if_pos hbn]
  congr 1
  omega

/-- Copying `m` bytes of `src` into the mapped block of `off`, at `off % BSIZE`, changes
the file's bytes `[off, off + m)` alone, to `src`'s. -/
theorem fileByte_copyIn_mapped (hinj : Inj G ip data) {off m : Nat} (hbn : off / G.bsize < G.maxfile)
    (h0 : slotVal G ip data (dataSlot G (off / G.bsize)) ≠ 0) (hm : m ≤ G.bsize - off % G.bsize)
    (src : Nat → UInt8) (p : Nat) :
    fileByte G ip (Function.update data (slotVal G ip data (dataSlot G (off / G.bsize)))
      (copyIn (data (slotVal G ip data (dataSlot G (off / G.bsize)))) (off % G.bsize) m src)) p =
      if off ≤ p ∧ p < off + m then src (p - off) else fileByte G ip data p := by
  rw [fileByte_write_mapped G hinj hbn h0, copyIn]
  by_cases hc : off ≤ p ∧ p < off + m
  · obtain ⟨hq, h1, h2⟩ := (chunk_iff G.bsize_pos hm).1 hc
    rw [if_pos hq, if_pos hc, if_pos ⟨h1, h2⟩, chunk_mod G.bsize_pos hm hc]
  · rw [if_neg hc]
    split_ifs with hq h
    · exact absurd ((chunk_iff G.bsize_pos hm).2 ⟨hq, h⟩) hc
    · rw [fileByte_of_mapped G (by rw [hq, mapped, if_pos hbn]; exact h0), hq, mapped, if_pos hbn]
    · rfl

end Frame

section Loops

variable (E : Env)

/-- `writei`'s loop from byte `tot` of the request at `off`, over blocks that are all
mapped: it copies the rest of the request, chunk by chunk, and returns the count `n`. -/
theorem writeiLoop_of_mapped (src : Nat → UInt8) (trans writeback : Bool) (n : Nat) :
    ∀ off tot (c : Ctx), Inj E.geo c.ip c.fs.buf.data → tot ≤ n → tot ≤ off →
      (∀ p, off ≤ p → p < off + (n - tot) → mapped E.geo c.ip c.fs.buf.data (p / E.geo.bsize) ≠ 0) →
      ∃ r c', writeiLoop E src trans writeback n off tot c = .ok r c' ∧ r = toInt32 n ∧
        c'.ip = c.ip ∧ ∀ p, fileByte E.geo c'.ip c'.fs.buf.data p =
          if off ≤ p ∧ p < off + (n - tot) then src (p - (off - tot))
          else fileByte E.geo c.ip c.fs.buf.data p := by
  intro off tot
  induction off, tot using writeiLoop.induct E src trans writeback n with
  | case1 off tot htn m ih =>
    intro c hinj hn hto hmap
    have hm : m ≤ E.geo.bsize - off % E.geo.bsize := min_le_right _ _
    have hm0 : 0 < m := chunk_pos E.geo off htn
    have hoff := hmap off le_rfl (by omega)
    obtain ⟨hbn, hb⟩ := mapped_of_ne_zero E.geo hoff
    rw [hb] at hoff
    rw [writeiLoop, dif_pos htn, FsM.bind_apply]
    simp only [catchOob, bmap_of_mapped hbn hoff, FsM.bind_apply, FsM.modify_apply]
    refine Ctx.Agree.ite_bind (logBlock_agree _) fun c₃ hl => ?_
    refine Ctx.Agree.ite_bind (writebackAsync_agree _) fun c₄ hwb => ?_
    have ha := hl.trans hwb
    have hchunk : ∀ p, fileByte E.geo c₄.ip c₄.fs.buf.data p =
        if off ≤ p ∧ p < off + m then src (tot + (p - off))
        else fileByte E.geo c.ip c.fs.buf.data p := fun p => by
      rw [ha.ip, ha.data, Ctx.writeBlock_ip, Ctx.writeBlock_data,
        fileByte_copyIn_mapped E.geo hinj hbn hoff hm]
    have hinj₄ : Inj E.geo c₄.ip c₄.fs.buf.data := by
      rw [ha.ip, ha.data, Ctx.writeBlock_ip, Ctx.writeBlock_data]
      exact hinj.write_mapped E.geo hbn hoff _
    have hmap₄ : ∀ p, off + m ≤ p → p < off + m + (n - (tot + m)) →
        mapped E.geo c₄.ip c₄.fs.buf.data (p / E.geo.bsize) ≠ 0 := fun p h₁ h₂ => by
      rw [ha.ip, ha.data, Ctx.writeBlock_ip, Ctx.writeBlock_data,
        mapped_congr E.geo (hinj.update_isPtr E.geo hbn hoff _)]
      exact hmap p (by omega) (by omega)
    obtain ⟨r, c', he, hr, hip, hbytes⟩ := ih c₄ hinj₄ (by omega) (by omega) hmap₄
    refine ⟨r, c', he, hr, hip.trans (ha.ip.trans (Ctx.writeBlock_ip _ _ _)), fun p => ?_⟩
    rw [hbytes, hchunk, Nat.add_sub_add_right, show off + m + (n - (tot + m)) = off + (n - tot) by omega]
    refine ite_split_range (fun q => src (q - (off - tot))) (fun q => src (tot + (q - off)))
      (fileByte E.geo c.ip c.fs.buf.data) ?_ ?_ (fun q h₁ _ => ?_) p
    · omega
    · omega
    · show src _ = src _
      congr 1
      omega
  | case2 off tot htn =>
    intro c _ hn _ _
    rw [writeiLoop, dif_neg htn]
    refine ⟨_, c, rfl, by rw [show tot = n by omega], rfl, fun p => ?_⟩
    rw [if_neg (by omega)]

/-- `readi`'s loop from byte `tot` of the request at `off`, over blocks that are all
mapped: it changes nothing and fills bytes `[tot, n)` of the destination with the file's
bytes from `off` on. -/
theorem readiLoop_of_mapped (n : Nat) :
    ∀ dst off tot (c : Ctx), tot ≤ n → tot ≤ off →
      (∀ p, off ≤ p → p < off + (n - tot) → mapped E.geo c.ip c.fs.buf.data (p / E.geo.bsize) ≠ 0) →
      readiLoop E n dst off tot c = .ok (fun k => if tot ≤ k ∧ k < n then
        fileByte E.geo c.ip c.fs.buf.data (off - tot + k) else dst k) c := by
  intro dst off tot
  induction dst, off, tot using readiLoop.induct E n with
  | case1 dst off tot htn ih =>
    intro c hn hto hmap
    have hm : min (n - tot) (E.geo.bsize - off % E.geo.bsize) ≤ E.geo.bsize - off % E.geo.bsize :=
      min_le_right _ _
    have hm0 := chunk_pos E.geo off htn
    have hoff := hmap off le_rfl (by omega)
    obtain ⟨hbn, hb⟩ := mapped_of_ne_zero E.geo hoff
    rw [hb] at hoff
    rw [readiLoop, dif_pos htn, FsM.bind_apply]
    simp only [catchOob, bmap_of_mapped hbn hoff, FsM.bind_apply, FsM.get_apply]
    rw [ih _ c c (by omega) (by omega) fun p h₁ h₂ => hmap p (by omega) (by omega)]
    congr 1
    funext k
    rw [copyOut, Nat.add_sub_add_right]
    refine ite_split_range (fun k => fileByte E.geo c.ip c.fs.buf.data (off - tot + k))
      (fun k => c.fs.buf.data (slotVal E.geo c.ip c.fs.buf.data (dataSlot E.geo (off / E.geo.bsize)))
        (off % E.geo.bsize + (k - tot))) dst ?_ ?_ (fun k h₁ h₂ => ?_) k
    · omega
    · omega
    · dsimp only
      rw [fileByte_chunk E.geo hbn hoff hm ⟨by omega, by omega⟩]
      congr 2
      omega
  | case2 dst off tot htn =>
    intro c hn _ _
    rw [readiLoop, dif_neg htn, FsM.pure_apply]
    congr
    funext k
    rw [if_neg (by omega)]

end Loops

/-- The `int` a `u32` count becomes: itself below `2^31`, negative from there on. -/
theorem toInt32_eq {x : Nat} (h : x < 4294967296) :
    toInt32 x = if x < 2147483648 then (x : Int) else x - 4294967296 := by
  rw [toInt32, u32, Nat.mod_eq_of_lt h]

section Counts

variable {E : Env} {c : Ctx}

/-- A request over mapped blocks of a non-device inode whose slots hold distinct blocks,
inside the largest file and with `off + n` a `u32`: `writei` copies all `n` bytes, and
`readi`, when the file holds them, copies all `n` bytes and changes nothing. Both return
`n` as an `int`: `n` below `2^31`, `n - 2^32` from there on. -/
theorem rw_count_of_mapped (hinj : Inj E.geo c.ip c.fs.buf.data) (hdev : c.ip.type ≠ .dev)
    {off n : Nat} (hov : off + n < 4294967296) (hfit : off + n ≤ E.geo.maxfile * E.geo.bsize)
    (hmap : ∀ p, off ≤ p → p < off + n → mapped E.geo c.ip c.fs.buf.data (p / E.geo.bsize) ≠ 0)
    (src dst : Nat → UInt8) (trans writeback : Bool) :
    (∃ c', writei E src off n trans writeback c =
        .ok (if n < 2147483648 then (n : Int) else n - 4294967296) c' ∧ c'.ip = c.ip ∧
      ∀ p, fileByte E.geo c'.ip c'.fs.buf.data p =
        if off ≤ p ∧ p < off + n then src (p - off) else fileByte E.geo c.ip c.fs.buf.data p) ∧
    (off + n ≤ c.ip.size → readi E dst off n c =
      .ok (if n < 2147483648 then (n : Int) else n - 4294967296,
        fun k => if k < n then fileByte E.geo c.ip c.fs.buf.data (off + k) else dst k) c) := by
  have hu : ¬ u32 (off + n) < off := by rw [u32, Nat.mod_eq_of_lt hov]; omega
  have hmap₀ : ∀ p, off ≤ p → p < off + (n - 0) →
      mapped E.geo c.ip c.fs.buf.data (p / E.geo.bsize) ≠ 0 := by simpa using hmap
  refine ⟨?_, fun hsize => ?_⟩
  · obtain ⟨r, c', he, hr, hip, hbytes⟩ := writeiLoop_of_mapped E src trans writeback n off 0 c
      hinj (Nat.zero_le _) (Nat.zero_le _) hmap₀
    refine ⟨c', ?_, hip, by simpa using hbytes⟩
    rw [writei_eq hdev hu, if_neg (by omega), he, hr, toInt32_eq (by omega)]
  · rw [readi_eq hdev (not_or.2 ⟨by omega, hu⟩), if_neg (by omega), FsM.bind_apply,
      readiLoop_of_mapped E n dst off 0 c (Nat.zero_le _) (Nat.zero_le _) hmap₀]
    simp only [FsM.pure_apply, toInt32_eq (show n < 4294967296 by omega), Nat.zero_le, true_and,
      Nat.sub_zero]

/-- A block whose entry `i` holds `f i`, as the stores `((u32 *) b)[i] = f i` leave it. -/
def wordBlock (f : Nat → Nat) : Block := fun k => setWord zeroBlock (k / 4) (f (k / 4)) k

theorem getWord_wordBlock (f : Nat → Nat) (i : Nat) :
    getWord (wordBlock f) i = f i % 4294967296 := by
  have h : ∀ r < 4, (4 * i + r) / 4 = i := fun r hr => by omega
  rw [← getWord_setWord_self zeroBlock i (f i)]
  simp only [getWord, wordBlock, show 4 * i / 4 = i by omega, h 1 (by omega), h 2 (by omega), h 3 (by omega)]

/-- A request of `2^31` bytes at offset 0 with `BSIZE = 4096` and `NDIRECT = 10`, over a file
whose `2^19` first blocks are all mapped, through both indirect tiers: blocks 1 to 10 are
direct, 11 and 12 the tier roots, and entry `e` of block `b` names block `1024 b + e + 13`.
`writei` copies all of it and returns `-2^31`, and so does `readi`. -/
theorem rw_count_of_mapped_2gib :
    let E : Env := ⟨⟨4096, 10, 14, by decide⟩, 4294967296, fun _ => 0⟩
    let c : Ctx := ⟨⟨1, .file, 0, 0, 1, 2147483648, 0, fun k => if k ≤ 11 then k + 1 else 0,
      none, 0, 1⟩, ⟨⟨fun b => wordBlock fun e => b * 1024 + e + 13, fun _ => false,
        fun _ => zeroBlock⟩, fun _ => false, Transaction.empty⟩⟩
    (∃ c', writei E (fun _ => 7) 0 2147483648 false false c = .ok (-2147483648) c') ∧
      ∃ d, readi E (fun _ => 0) 0 2147483648 c = .ok (-2147483648, d) c := by
  intro E c
  have hw : ∀ b e, entryAt (fun b => wordBlock fun e => b * 1024 + e + 13) b e =
      if b = 0 then 0 else (b * 1024 + e + 13) % 4294967296 := fun b e => by
    simp only [entryAt, getWord_wordBlock]
  have hN : E.geo.ndirect = 10 := rfl
  have hI : E.geo.nindirect = 1024 := by decide
  have hA : ∀ k, c.ip.addrs k = if k ≤ 11 then k + 1 else 0 := fun _ => rfl
  have hD : c.fs.buf.data = fun b => wordBlock fun e => b * 1024 + e + 13 := rfl
  have hpos : ∀ σ, σ.Valid E.geo → slotVal E.geo c.ip c.fs.buf.data σ ≠ 0 := by
    intro σ hσ
    cases σ <;> simp only [Slot.Valid, slotVal, hN, hI, hA, hD, hw, Nat.reduceLeDiff,
      Nat.reduceEqDiff, Nat.reduceAdd, Nat.reduceMul, reduceIte] at hσ ⊢ <;> (try split_ifs) <;> omega
  have hinj : Inj E.geo c.ip c.fs.buf.data := by
    intro σ τ hσ hτ _ he
    cases σ <;> cases τ <;>
      simp only [Slot.Valid, slotVal, hN, hI, hA, hD, hw, Nat.reduceLeDiff, Nat.reduceEqDiff,
        Nat.reduceAdd, Nat.reduceMul, reduceIte, Slot.direct.injEq, Slot.ind.injEq,
        Slot.dbl1.injEq, Slot.dbl2.injEq] at hσ hτ he ⊢ <;>
      (try split_ifs at he) <;> omega
  have hmap : ∀ p, 0 ≤ p → p < 0 + 2147483648 →
      mapped E.geo c.ip c.fs.buf.data (p / E.geo.bsize) ≠ 0 := fun p _ hp => by
    have hbn : p / E.geo.bsize < E.geo.maxfile := by
      simp only [E, Geometry.maxfile, Geometry.nindirect]
      omega
    rw [mapped, if_pos hbn]
    exact hpos _ (dataSlot_valid E.geo hbn)
  have hneg : (if (2147483648 : Nat) < 2147483648 then ((2147483648 : Nat) : Int)
      else ((2147483648 : Nat) : Int) - 4294967296) = -2147483648 := by decide
  obtain ⟨⟨c', hw, -⟩, hr⟩ := rw_count_of_mapped hinj (by decide) (by decide) (by decide) hmap
    (fun _ => 7) (fun _ => 0) false false
  rw [hneg] at hw hr
  exact ⟨⟨c', hw⟩, _, hr le_rfl⟩

end Counts

end Sv6Fs
