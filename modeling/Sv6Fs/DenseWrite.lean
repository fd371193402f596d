import Sv6Fs.TruncateFiles

/-! # Writes that keep a tree without holes

`itrunc` does what it is for on a tree without holes (`Dense`), and `writei` makes holes
when it writes past the blocks already mapped, since `bmap` fills the slots on the path to
the block it is asked for and no others. From an offset whose block is at most one past the
mapped prefix of the file, each slot `bmap` fills comes right after one that holds a block,
so the tree keeps no holes.

* `Dense.of_grows_path`: filling slots on the path to the data slot of a logical block
  `bn`, when every block below `bn` is mapped, keeps a tree without holes.
* `Dense.bmap_ok`, `Dense.bmap_error`: so does `bmap` of such a block, whether it returns
  (and then `bn` is mapped too) or runs out of blocks; neither moves a mapped block.
* `FilesInv.writei_dense`: `writei` from such an offset keeps the tree without holes and
  moves no mapped block, so a file written by appending stays one that `itrunc` truncates
  as it should (`FilesInv.itrunc_truncates`).
-/

namespace Sv6Fs

/-! ## Where a slot's first block is mapped -/

section First

variable {G : Geometry}

/-- Along the path `bmap` walks to a slot, the first logical block grows. -/
theorem Slot.first_le_of_mem_path {σ ρ : Slot} (h : σ ∈ ρ.path) : σ.first G ≤ ρ.first G := by
  cases ρ <;> simp only [Slot.path, List.mem_cons, List.mem_singleton, List.not_mem_nil,
    or_false] at h <;> rcases h with rfl | rfl | rfl <;> simp only [Slot.first] <;> omega

/-- Along the entries of a pointer slot the first logical block grows strictly. -/
theorem Slot.first_child_lt {π : Slot} (hp : π.isPtr) (hN : 0 < G.nindirect) (k : Nat) :
    (π.child k).first G < (π.child (k + 1)).first G := by
  cases π <;> simp_all [Slot.child, Slot.first, Slot.isPtr, Nat.succ_mul]

/-- The data slot of entry `j` of second-level block `k`. -/
theorem dataSlot_dbl2 {k j : Nat} (hj : j < G.nindirect) :
    dataSlot G (G.ndirect + G.nindirect + k * G.nindirect + j) = .dbl2 k j := by
  have hN : 0 < G.nindirect := by omega
  rw [dataSlot_dbl (by omega) (by omega),
    show G.ndirect + G.nindirect + k * G.nindirect + j - G.ndirect - G.nindirect =
      j + k * G.nindirect by omega,
    Nat.add_mul_div_right _ _ hN, Nat.add_mul_mod_self_right, Nat.div_eq_of_lt hj,
    Nat.mod_eq_of_lt hj, Nat.zero_add]
  rfl

/-- A slot lies on the path to the data slot of its first logical block. -/
theorem Slot.mem_path_dataSlot_first {τ : Slot} (hτ : τ.Valid G) (hm : τ.first G < G.maxfile) :
    τ ∈ (dataSlot G (τ.first G)).path := by
  have hN : τ.isPtr → 0 < G.nindirect := fun hp => Nat.pos_of_ne_zero fun h0 => by
    cases τ <;> simp_all [Slot.first, Geometry.maxfile, Slot.isPtr, Slot.Valid]
  cases τ with
  | direct k => simp [Slot.first, dataSlot, show k < G.ndirect from hτ, Slot.path]
  | indRoot => simp [Slot.first, dataSlot, hN rfl, Slot.path]
  | ind k => simp [Slot.first, dataSlot, show k < G.nindirect from hτ, Slot.path]
  | dblRoot =>
    rw [show Slot.first G .dblRoot = G.ndirect + G.nindirect + 0 * G.nindirect + 0 by
      simp [Slot.first], dataSlot_dbl2 (hN rfl)]
    simp [Slot.path]
  | dbl1 k =>
    rw [show Slot.first G (.dbl1 k) = G.ndirect + G.nindirect + k * G.nindirect + 0 from rfl,
      dataSlot_dbl2 (hN rfl)]
    simp [Slot.path]
  | dbl2 k j => simp [Slot.first, dataSlot_dbl2 (G := G) (k := k) hτ.2, Slot.path]

/-- An empty slot on the path to a slot empties it. -/
theorem slotVal_zero_of_mem_path {ip : Inode} {data : Nat → Block} {ρ σ : Slot}
    (hρ : ρ ∈ σ.path) (h0 : slotVal G ip data ρ = 0) : slotVal G ip data σ = 0 := by
  cases σ <;> simp only [Slot.path, List.mem_cons, List.mem_singleton, List.not_mem_nil,
    or_false] at hρ <;> rcases hρ with rfl | rfl | rfl <;> simp_all [slotVal, entryAt]

/-- A slot holds a block when the first logical block under it is mapped. -/
theorem slotVal_ne_zero_of_mapped {ip : Inode} {data : Nat → Block} {τ : Slot}
    (hτ : τ.Valid G) (h : mapped G ip data (τ.first G) ≠ 0) : slotVal G ip data τ ≠ 0 :=
  fun h0 => by
    obtain ⟨hm, he⟩ := mapped_of_ne_zero G h
    exact h (he.trans (slotVal_zero_of_mem_path (Slot.mem_path_dataSlot_first hτ hm) h0))

/-- The mapping sees only the slots. -/
theorem mapped_of_slots {ip ip' : Inode} {data data' : Nat → Block}
    (hs : ∀ τ : Slot, τ.Valid G → slotVal G ip' data' τ = slotVal G ip data τ) (m : Nat) :
    mapped G ip' data' m = mapped G ip data m := by
  unfold mapped
  split
  · exact hs _ (dataSlot_valid G ‹_›)
  · rfl

/-- Density sees only the slots. -/
theorem Dense.of_slots {ip ip' : Inode} {data data' : Nat → Block} (hd : Dense G ip data)
    (hs : ∀ τ : Slot, τ.Valid G → slotVal G ip' data' τ = slotVal G ip data τ) :
    Dense G ip' data' where
  direct := hd.direct.congr fun k _ hk => hs (.direct k) hk
  entries π hπ hp := (hd.entries π hπ hp).congr fun _ _ hk =>
    hs _ ((Slot.child_valid hπ hp).2 hk)
  roots h0 := (hs .dblRoot trivial).trans (hd.roots ((hs .indRoot trivial).symm.trans h0))

/-- So does soundness, with the free-bit-vector. -/
theorem Wf.of_slots {c c' : Ctx} (hw : Wf G c)
    (hs : ∀ τ : Slot, τ.Valid G → slotVal G c'.ip c'.fs.buf.data τ = slotVal G c.ip c.fs.buf.data τ)
    (hf : c'.fs.free = c.fs.free) : Wf G c' where
  inj σ τ hσ hτ h0 he := hw.inj σ τ hσ hτ (hs σ hσ ▸ h0) (by rwa [← hs σ hσ, ← hs τ hτ])
  used τ hτ h0 := by
    rw [hs τ hτ, hf]
    exact hw.used τ hτ (hs τ hτ ▸ h0)
  zero := hf ▸ hw.zero

end First

/-! ## Filling slots after mapped ones -/

section Grows

variable {G : Geometry} {A : Slot → Prop} {c c₁ : Ctx}

/-- A growth keeps every block in its slot. -/
theorem Grows.slot_of_ne_zero (h : Grows G A c c₁) {τ : Slot} (hτ : τ.Valid G)
    (h0 : slotVal G c.ip c.fs.buf.data τ ≠ 0) :
    slotVal G c₁.ip c₁.fs.buf.data τ = slotVal G c.ip c.fs.buf.data τ :=
  (h.slot τ hτ).resolve_right fun ⟨_, z, _⟩ => h0 z

/-- ... so moves no mapped block. -/
theorem Grows.mapped_keep (h : Grows G A c c₁) {m : Nat}
    (h0 : mapped G c.ip c.fs.buf.data m ≠ 0) :
    mapped G c₁.ip c₁.fs.buf.data m = mapped G c.ip c.fs.buf.data m := by
  obtain ⟨hm, he⟩ := mapped_of_ne_zero G h0
  rw [he] at h0 ⊢
  rw [mapped, if_pos hm, h.slot_of_ne_zero (dataSlot_valid G hm) h0]

/-- A growth keeps a run of slots without holes when each slot of the run it may fill comes
after one that holds a block. -/
theorem Grows.noHole (h : Grows G A c c₁) {f : Nat → Slot} {i n : Nat}
    (hv : ∀ k, k < n → (f k).Valid G)
    (hA : ∀ k, i ≤ k → k + 1 < n → A (f (k + 1)) → slotVal G c.ip c.fs.buf.data (f k) ≠ 0)
    (hd : NoHole (fun k => slotVal G c.ip c.fs.buf.data (f k)) i n) :
    NoHole (fun k => slotVal G c₁.ip c₁.fs.buf.data (f k)) i n := by
  intro k hik hk h1
  dsimp only at h1 ⊢
  have h0 : slotVal G c.ip c.fs.buf.data (f k) ≠ 0 := by
    rcases h.slot _ (hv _ hk) with e | ⟨ha, -⟩
    · rw [e] at h1
      exact hd k hik hk h1
    · exact hA k hik hk ha
  rwa [h.slot_of_ne_zero (hv _ (by omega)) h0]

/-- A growth keeps a tree without holes when in each tier it fills a slot only after one
that holds a block, and the doubly-indirect root only beside an indirect block. -/
theorem Dense.of_grows (hd : Dense G c.ip c.fs.buf.data) (h : Grows G A c c₁)
    (hdir : ∀ k, k + 1 < G.ndirect → A (.direct (k + 1)) → c.ip.addrs k ≠ 0)
    (hent : ∀ π : Slot, π.Valid G → π.isPtr → ∀ k, k + 1 < G.nindirect →
      A (π.child (k + 1)) → slotVal G c.ip c.fs.buf.data (π.child k) ≠ 0)
    (hroot : A .dblRoot → c.ip.addrs G.ndirect ≠ 0) : Dense G c₁.ip c₁.fs.buf.data where
  direct := h.noHole (f := Slot.direct) (fun _ hk => hk) (fun k _ => hdir k) hd.direct
  entries π hπ hp := h.noHole (fun _ hk => (Slot.child_valid hπ hp).2 hk)
    (fun k _ => hent π hπ hp k) (hd.entries π hπ hp)
  roots h0 := by
    have e₁ : c.ip.addrs G.ndirect = 0 := by
      by_contra hne
      exact hne ((h.slot_of_ne_zero (τ := .indRoot) trivial hne).symm.trans h0)
    rcases h.slot .dblRoot trivial with e | ⟨hA, -⟩
    · exact e.trans (hd.roots e₁)
    · exact absurd e₁ (hroot hA)

/-- A growth that fills only slots on the path to the data slot of logical block `bn`, on a
tree without holes where every logical block below `bn` is mapped, keeps the tree without
holes: a slot before one on that path starts below `bn`, so it holds a block. -/
theorem Dense.of_grows_path (hd : Dense G c.ip c.fs.buf.data) {bn : Nat}
    (hpre : ∀ m < bn, mapped G c.ip c.fs.buf.data m ≠ 0) (hbn : bn < G.maxfile)
    (h : Grows G A c c₁) (hA : ∀ τ, A τ → τ ∈ (dataSlot G bn).path) :
    Dense G c₁.ip c₁.fs.buf.data := by
  have hle : ∀ σ, A σ → σ.first G ≤ bn := fun σ hσ =>
    (Slot.first_le_of_mem_path (hA σ hσ)).trans_eq (Slot.first_dataSlot bn)
  have key : ∀ τ σ : Slot, τ.Valid G → τ.first G < σ.first G → A σ →
      slotVal G c.ip c.fs.buf.data τ ≠ 0 := fun τ σ hτ hlt hσ =>
    slotVal_ne_zero_of_mapped hτ (hpre _ (lt_of_lt_of_le hlt (hle σ hσ)))
  refine hd.of_grows h
    (fun k hk hk' => key (.direct k) _ (show k < G.ndirect by omega) (by simp [Slot.first]) hk')
    (fun π hπ hp k hk hk' => key _ _ ((Slot.child_valid hπ hp).2 (by omega))
      (Slot.first_child_lt hp (by omega) k) hk')
    fun hk' => key .indRoot .dblRoot trivial ?_ hk'
  -- a doubly-indirect tier exists only with `NINDIRECT > 0`
  have h₁ := hle _ hk'
  simp only [Slot.first, Geometry.maxfile] at h₁ hbn ⊢
  have hN : G.nindirect ≠ 0 := fun h0 => by simp [h0] at hbn; omega
  omega

end Grows

/-! ## `bmap` and `writei` -/

section Bmap

variable {E : Env} {c c₁ : Ctx} {bn b : Nat} {trans zero : Bool}

/-- `bmap` of the logical block right after a mapped prefix, on a tree without holes, keeps
the tree without holes and every mapped block in place, and maps the block. -/
theorem Dense.bmap_ok (hE : E.Sane) (hw : Wf E.geo c) (hd : Dense E.geo c.ip c.fs.buf.data)
    (hbn : bn < E.geo.maxfile) (hpre : ∀ m < bn, mapped E.geo c.ip c.fs.buf.data m ≠ 0)
    (h : bmap E bn trans zero c = .ok b c₁) :
    Dense E.geo c₁.ip c₁.fs.buf.data ∧ Wf E.geo c₁ ∧
      (∀ m, mapped E.geo c.ip c.fs.buf.data m ≠ 0 →
        mapped E.geo c₁.ip c₁.fs.buf.data m = mapped E.geo c.ip c.fs.buf.data m) ∧
      mapped E.geo c₁.ip c₁.fs.buf.data bn = b ∧ b ≠ 0 := by
  obtain ⟨hg, hw₁, hs, hb, -⟩ := Sv6Fs.bmap_ok hE hw hbn h
  exact ⟨hd.of_grows_path hpre hbn hg fun _ h => h, hw₁, fun _ => hg.mapped_keep,
    by rw [mapped, if_pos hbn, hs], hb⟩

/-- ... and so does a `bmap` that runs out of blocks. -/
theorem Dense.bmap_error (hE : E.Sane) (hw : Wf E.geo c) (hd : Dense E.geo c.ip c.fs.buf.data)
    (hbn : bn < E.geo.maxfile) (hpre : ∀ m < bn, mapped E.geo c.ip c.fs.buf.data m ≠ 0)
    {e : Fault} (h : bmap E bn trans zero c = .error e c₁) :
    Dense E.geo c₁.ip c₁.fs.buf.data ∧
      ∀ m, mapped E.geo c.ip c.fs.buf.data m ≠ 0 →
        mapped E.geo c₁.ip c₁.fs.buf.data m = mapped E.geo c.ip c.fs.buf.data m := by
  obtain ⟨-, hg, -⟩ := Sv6Fs.bmap_error hE hw hbn h
  exact ⟨hd.of_grows_path hpre hbn hg fun _ h => h.2, fun _ => hg.mapped_keep⟩

/-- `writei`'s loop from byte `tot` of the request at file offset `off`, over a range below
`MAXFILE * BSIZE`, on a tree without holes whose logical blocks below `off / BSIZE` are all
mapped: it returns, keeps the tree without holes, and moves no mapped block. Each chunk
maps its block, so the next chunk starts right after the mapped prefix again. -/
theorem writeiLoop_dense (hE : E.Sane) (src : Nat → UInt8) (trans writeback : Bool) (n : Nat) :
    ∀ off tot (c : Ctx), Wf E.geo c → Dense E.geo c.ip c.fs.buf.data →
      (∀ m < off / E.geo.bsize, mapped E.geo c.ip c.fs.buf.data m ≠ 0) →
      tot ≤ n → tot ≤ off → off - tot + n ≤ E.geo.maxfile * E.geo.bsize →
      ∃ r c', writeiLoop E src trans writeback n off tot c = .ok r c' ∧
        Dense E.geo c'.ip c'.fs.buf.data ∧
        (∀ m, mapped E.geo c.ip c.fs.buf.data m ≠ 0 →
          mapped E.geo c'.ip c'.fs.buf.data m = mapped E.geo c.ip c.fs.buf.data m) ∧
        ∃ cnt, tot ≤ cnt ∧ cnt ≤ n ∧ (r = toInt32 cnt ∨ cnt = 0 ∧ r = -1) ∧
          ∀ p, off ≤ p → p < off + (cnt - tot) →
            mapped E.geo c'.ip c'.fs.buf.data (p / E.geo.bsize) ≠ 0 := by
  intro off tot
  induction off, tot using writeiLoop.induct E src trans writeback n with
  | case1 off tot htn m ih =>
    intro c hw hd hpre hn hto hrange
    have hm : m ≤ E.geo.bsize - off % E.geo.bsize := min_le_right _ _
    have hm0 : 0 < m := chunk_pos E.geo off htn
    have hbn : off / E.geo.bsize < E.geo.maxfile :=
      Nat.div_lt_of_lt_mul (by rw [Nat.mul_comm]; omega)
    have hdiv : (off + m) / E.geo.bsize ≤ off / E.geo.bsize + 1 := by
      apply Nat.div_le_of_le_mul
      have := Nat.div_add_mod off E.geo.bsize
      rw [Nat.mul_succ]
      omega
    rw [writeiLoop, dif_pos htn, FsM.bind_apply]
    rcases hx : catchOob (bmap E (off / E.geo.bsize) trans _) c with ⟨_ | b, c₁⟩ | ⟨e, c₁⟩
    · -- out of blocks: the loop stops where `bmap` left the tree
      obtain ⟨_, ⟨⟩, -⟩ | ⟨-, hb⟩ := catchOob_ok hx
      obtain ⟨hd₁, hkeep₁⟩ := hd.bmap_error hE hw hbn hpre hb
      refine ⟨_, _, rfl, hd₁, hkeep₁, tot, le_rfl, hn, ?_, fun p h₁ h₂ => by omega⟩
      by_cases h0 : tot = 0
      · exact .inr ⟨h0, if_pos h0⟩
      · exact .inl (if_neg h0)
    · -- the chunk goes to the data block `b`, then is logged or written back
      obtain ⟨_, ⟨⟩, hb⟩ | ⟨⟨⟩, -⟩ := catchOob_ok hx
      obtain ⟨hd₁, hw₁, hkeep₁, hbn₁, hb0⟩ := hd.bmap_ok hE hw hbn hpre hb
      dsimp only
      rw [FsM.bind_apply, FsM.modify_apply]
      dsimp only
      refine Ctx.Agree.ite_bind (logBlock_agree b) fun c₃ hl => ?_
      dsimp only
      refine Ctx.Agree.ite_bind (writebackAsync_agree b) fun c₄ hwb => ?_
      have ha := hl.trans hwb
      have hnp : ¬ IsPtr E.geo c₁.ip c₁.fs.buf.data b := by
        obtain ⟨-, he⟩ := mapped_of_ne_zero E.geo (hbn₁ ▸ hb0)
        rw [← hbn₁, he]
        exact hw₁.inj.not_isPtr E.geo hbn (he ▸ hbn₁ ▸ hb0)
      -- writing a data block keeps every slot
      have hslot : ∀ τ : Slot, τ.Valid E.geo →
          slotVal E.geo c₄.ip c₄.fs.buf.data τ = slotVal E.geo c₁.ip c₁.fs.buf.data τ :=
        fun τ hτ => by
          rw [ha.ip, ha.data]
          exact slotVal_writeBlock hnp _ hτ
      have hpre₄ : ∀ m' < (off + m) / E.geo.bsize, mapped E.geo c₄.ip c₄.fs.buf.data m' ≠ 0 :=
        fun m' hm' => by
          rw [mapped_of_slots hslot]
          rcases Nat.lt_or_ge m' (off / E.geo.bsize) with h | h
          · rw [hkeep₁ m' (hpre m' h)]
            exact hpre m' h
          · rw [show m' = off / E.geo.bsize by omega, hbn₁]
            exact hb0
      obtain ⟨r, c', he, hd', hkeep, cnt, hcnt, hcn, hr, hwrote⟩ :=
        ih c₄ (hw₁.of_slots hslot (by rw [ha.free]; rfl)) (hd₁.of_slots hslot) hpre₄
          (by omega) (by omega) (by omega)
      have hkeep₄ : ∀ m', mapped E.geo c.ip c.fs.buf.data m' ≠ 0 →
          mapped E.geo c₄.ip c₄.fs.buf.data m' = mapped E.geo c.ip c.fs.buf.data m' :=
        fun m' h0 => by rw [mapped_of_slots hslot, hkeep₁ m' h0]
      refine ⟨r, c', he, hd', fun m' h0 => ?_, cnt, by omega, hcn, hr, fun p h₁ h₂ => ?_⟩
      · rw [hkeep m' ((hkeep₄ m' h0).symm ▸ h0), hkeep₄ m' h0]
      rcases Nat.lt_or_ge p (off + m) with hp | hp
      · -- a byte of this chunk, in the block `bmap` mapped
        have h₄ : mapped E.geo c₄.ip c₄.fs.buf.data (off / E.geo.bsize) ≠ 0 := by
          rw [mapped_of_slots hslot, hbn₁]
          exact hb0
        rw [((chunk_iff E.geo.bsize_pos hm).1 ⟨h₁, hp⟩).1, hkeep _ h₄]
        exact h₄
      · exact hwrote p hp (by omega)
    · exact absurd (Sv6Fs.bmap_error hE hw hbn (catchOob_error hx).2).1 (catchOob_error hx).1
  | case2 off tot htn =>
    intro c _ hd _ hn _ _
    rw [writeiLoop, dif_neg htn]
    exact ⟨_, _, rfl, hd, fun _ _ => rfl, tot, le_rfl, hn, .inl rfl, fun p h₁ h₂ => by omega⟩

/-- `writei` from an offset at most `MAXFILE * BSIZE`: it returns -1 at once, or runs its loop
over the request cut so as to end by `MAXFILE * BSIZE`. -/
theorem writei_cases (src : Nat → UInt8) {off : Nat} (n : Nat) (trans writeback : Bool)
    (hoff : off ≤ E.geo.maxfile * E.geo.bsize) :
    writei E src off n trans writeback c = .ok (-1) c ∨
      ∃ n' ≤ n, off + n' ≤ E.geo.maxfile * E.geo.bsize ∧
        writei E src off n trans writeback c = writeiLoop E src trans writeback n' off 0 c := by
  by_cases hret : c.ip.type = .dev ∨ u32 (off + n) < off
  · exact .inl (writei_ret hret)
  push_neg at hret
  refine .inr ⟨_, ?_, ?_, writei_eq hret.1 (not_lt.2 hret.2)⟩ <;> simp only [u32] <;> split <;>
    omega

/-- `writei` on a tree without holes, from an offset at most `MAXFILE * BSIZE` whose block is
at most one past the mapped prefix: it returns, keeps the tree without holes and every
mapped block, and stops at a count `cnt` whose bytes `[off, off + cnt)` all lie in mapped
blocks. -/
theorem Dense.writei_ok (hE : E.Sane) (src : Nat → UInt8) {c : Ctx} {off : Nat} (n : Nat)
    (trans writeback : Bool) (hw : Wf E.geo c) (hoff : off ≤ E.geo.maxfile * E.geo.bsize)
    (hd : Dense E.geo c.ip c.fs.buf.data)
    (hpre : ∀ m < off / E.geo.bsize, mapped E.geo c.ip c.fs.buf.data m ≠ 0) :
    ∃ r c', writei E src off n trans writeback c = .ok r c' ∧
      Dense E.geo c'.ip c'.fs.buf.data ∧
      (∀ m, mapped E.geo c.ip c.fs.buf.data m ≠ 0 →
        mapped E.geo c'.ip c'.fs.buf.data m = mapped E.geo c.ip c.fs.buf.data m) ∧
      ∃ cnt, cnt ≤ n ∧ (r = toInt32 cnt ∨ cnt = 0 ∧ r = -1) ∧
        ∀ p, off ≤ p → p < off + cnt → mapped E.geo c'.ip c'.fs.buf.data (p / E.geo.bsize) ≠ 0 := by
  rcases writei_cases (c := c) src n trans writeback hoff with h | ⟨n', hn', hM, h⟩
  · exact ⟨-1, c, h, hd, fun _ _ => rfl, 0, Nat.zero_le _, .inr ⟨rfl, rfl⟩,
      fun p h₁ h₂ => by omega⟩
  obtain ⟨r, c', he, hd', hkeep, cnt, -, hcn, hr, hwrote⟩ := writeiLoop_dense hE src trans
    writeback n' off 0 c hw hd hpre (Nat.zero_le _) (Nat.zero_le _) (by omega)
  exact ⟨r, c', h.trans he, hd', hkeep, cnt, hcn.trans hn', hr,
    fun p h₁ h₂ => hwrote p h₁ (by omega)⟩

end Bmap

section Files

variable {E : Env} {Meta : Nat → Prop} {s : Sys} {i : Nat}

/-- `writei` of inode `i` from an offset at most `MAXFILE * BSIZE` whose block is at most
one past the mapped prefix of the file, on a tree without holes, from a state with the file
invariant: it returns, keeps the invariant and the tree without holes, and moves no mapped
block. -/
theorem FilesInv.writei_dense (hE : E.Sane) (hs : FilesInv E Meta s) (src : Nat → UInt8)
    {off : Nat} (n : Nat) (trans writeback : Bool) (hoff : off ≤ E.geo.maxfile * E.geo.bsize)
    (hd : Dense E.geo (s.inodes i) s.fs.buf.data)
    (hpre : ∀ m < off / E.geo.bsize, mapped E.geo (s.inodes i) s.fs.buf.data m ≠ 0) :
    ∃ r s', onInode i (writei E src off n trans writeback) s = .ok r s' ∧ FilesInv E Meta s' ∧
      Dense E.geo (s'.inodes i) s'.fs.buf.data ∧
      ∀ m, mapped E.geo (s.inodes i) s.fs.buf.data m ≠ 0 →
        mapped E.geo (s'.inodes i) s'.fs.buf.data m = mapped E.geo (s.inodes i) s.fs.buf.data m := by
  obtain ⟨r, c', he, hs', -⟩ := writei_spec hE hs src (i := i) n trans writeback hoff
  obtain ⟨r', c'', he', hd', hkeep, -⟩ :=
    hd.writei_ok hE src n trans writeback (hs.owned.wf i) hoff hpre
  rw [he] at he'
  cases he'
  exact ⟨r, _, onInode_of_ok he, hs', by simpa using hd', by simpa using hkeep⟩

/-- Inode 1 of `oneBlockDir`, whose block 0 is mapped, written 4 bytes at offset 64, the
start of its block 1. -/
theorem FilesInv.writei_dense_append :
    let s := oneBlockDir fun k => k.toUInt8
    smallEnv.Sane ∧ FilesInv smallEnv (· < 3) s ∧ 64 ≤ smallEnv.geo.maxfile * smallEnv.geo.bsize ∧
      Dense smallEnv.geo (s.inodes 1) s.fs.buf.data ∧
      (∀ m < 64 / smallEnv.geo.bsize, mapped smallEnv.geo (s.inodes 1) s.fs.buf.data m ≠ 0) ∧
      ∃ r s', onInode 1 (writei smallEnv (fun _ => 7) 64 4 false false) s = .ok r s' ∧
        FilesInv smallEnv (· < 3) s' ∧ Dense smallEnv.geo (s'.inodes 1) s'.fs.buf.data ∧
        ∀ m, mapped smallEnv.geo (s.inodes 1) s.fs.buf.data m ≠ 0 →
          mapped smallEnv.geo (s'.inodes 1) s'.fs.buf.data m =
            mapped smallEnv.geo (s.inodes 1) s.fs.buf.data m := by
  intro s
  have hE : smallEnv.Sane := Env.firstFit_sane _ (by decide)
  have hs : FilesInv smallEnv (· < 3) s := oneBlockDir_filesInv _
  have hd : Dense smallEnv.geo (s.inodes 1) s.fs.buf.data :=
    Dense.of_direct (fun k _ hk => absurd hk (by show ¬ k + 1 < 1; omega)) rfl rfl
  have hpre : ∀ m < 64 / smallEnv.geo.bsize, mapped smallEnv.geo (s.inodes 1) s.fs.buf.data m ≠ 0 :=
    by decide
  exact ⟨hE, hs, by decide, hd, hpre,
    FilesInv.writei_dense hE hs (fun _ => 7) 4 false false (by decide) hd hpre⟩

end Files

end Sv6Fs
