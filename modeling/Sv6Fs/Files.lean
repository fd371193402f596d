import Sv6Fs.Contents

/-! # Files as byte arrays

`writei` and `readi` cut a request into chunks at block boundaries. A chunk of `writei`
maps its block with `bmap` and copies its bytes in; a chunk of `readi` maps its block
(allocating with zeroing, so a hole still reads as zeros) and copies the bytes out.

* `Owned.writeChunk`, `Owned.readChunk`: one chunk keeps block ownership; a write chunk
  changes exactly its own bytes of its own file, a read chunk changes no byte.
-/

namespace Sv6Fs

/-- The bytes `[off, off + m)` of a chunk that stays in one block are the bytes of that
block from `off % BSIZE` on. -/
theorem chunk_iff {bsize off m p : Nat} (hb : 0 < bsize) (hm : m ≤ bsize - off % bsize) :
    (off ≤ p ∧ p < off + m) ↔
      (p / bsize = off / bsize ∧ off % bsize ≤ p % bsize ∧ p % bsize < off % bsize + m) := by
  have h1 := Nat.div_add_mod p bsize
  have h2 := Nat.div_add_mod off bsize
  have h3 := Nat.mod_lt p hb
  have h4 := Nat.mod_lt off hb
  constructor
  · rintro ⟨hl, hr⟩
    have hq : p / bsize = off / bsize := by
      apply le_antisymm
      · by_contra hlt
        have : bsize * (off / bsize + 1) ≤ bsize * (p / bsize) :=
          Nat.mul_le_mul_left _ (by omega)
        rw [Nat.mul_add] at this
        omega
      · exact Nat.div_le_div_right hl
    rw [hq] at h1
    omega
  · rintro ⟨hq, hl, hr⟩
    rw [hq] at h1
    omega

/-- Within a chunk, the offset in the block moves with the offset in the file. -/
theorem chunk_mod {bsize off m p : Nat} (hb : 0 < bsize) (hm : m ≤ bsize - off % bsize)
    (h : off ≤ p ∧ p < off + m) : p % bsize - off % bsize = p - off := by
  have h1 := Nat.div_add_mod p bsize
  have h2 := Nat.div_add_mod off bsize
  obtain ⟨hq, -, -⟩ := (chunk_iff hb hm).1 h
  rw [hq] at h1
  omega

/-- A range `[lo, hi)` cut at `mid`, whose two parts are filled by `b` and then `a`, is
filled by `a` when the two agree on the first part. -/
theorem ite_split_range {α : Type} (a b g : Nat → α) {lo mid hi : Nat} (hlo : lo ≤ mid)
    (hmid : mid ≤ hi) (hab : ∀ p, lo ≤ p → p < mid → b p = a p) (p : Nat) :
    (if mid ≤ p ∧ p < hi then a p else if lo ≤ p ∧ p < mid then b p else g p) =
      if lo ≤ p ∧ p < hi then a p else g p := by
  by_cases h₁ : mid ≤ p ∧ p < hi
  · rw [if_pos h₁, if_pos ⟨by omega, h₁.2⟩]
  by_cases h₂ : lo ≤ p ∧ p < mid
  · rw [if_neg h₁, if_pos h₂, if_pos ⟨h₂.1, by omega⟩, hab p h₂.1 h₂.2]
  · rw [if_neg h₁, if_neg h₂, if_neg (by omega)]

section Chunks

variable {E : Env} {Meta : Nat → Prop} {s : Sys} {i : Nat}

/-- One chunk of `writei`: `bmap` of the chunk's block returned `b`, then `m` bytes of `src`
are copied into it at `off % BSIZE`; a block `bmap` took without zeroing is covered whole.
Block ownership holds afterwards, and the bytes that changed are the chunk's, in file `i`. -/
theorem Owned.writeChunk (hE : E.Sane) (hs : Owned E Meta s) {off m b : Nat} {trans z : Bool}
    {c₁ : Ctx} (hb : bmap E (off / E.geo.bsize) trans z (s.ctx i) = .ok b c₁)
    (hbn : off / E.geo.bsize < E.geo.maxfile) (hm : m ≤ E.geo.bsize - off % E.geo.bsize)
    (hz : z = false → off % E.geo.bsize = 0 ∧ m = E.geo.bsize) (src : Nat → UInt8) :
    let s' := s.put i (c₁.writeBlock b (copyIn (c₁.fs.buf.data b) (off % E.geo.bsize) m src))
    Owned E Meta s' ∧ ∀ j p, fileByte E.geo (s'.inodes j) s'.fs.buf.data p =
      if j = i ∧ off ≤ p ∧ p < off + m then src (p - off)
      else fileByte E.geo (s.inodes j) s.fs.buf.data p := by
  intro s'
  set G := E.geo
  set bn := off / G.bsize
  set blk := copyIn (c₁.fs.buf.data b) (off % G.bsize) m src
  obtain ⟨hg, hw, hsb, hb0, -⟩ := Sv6Fs.bmap_ok hE (hs.wf i) hbn hb
  have hv := dataSlot_valid G hbn
  have hs₁ := hs.put hg hw
  have hb₁ : slotVal G ((s.put i c₁).inodes i) (s.put i c₁).fs.buf.data (dataSlot G bn) = b := by
    simpa using hsb
  have hnp : ∀ j, ¬ IsPtr G ((s.put i c₁).inodes j) (s.put i c₁).fs.buf.data b := fun j =>
    hb₁ ▸ hs₁.not_isPtr hv (dataSlot_not_isPtr G bn) (hb₁ ▸ hb0)
  refine ⟨by simpa using hs₁.put_writeBlock hnp blk (i := i), fun j p => ?_⟩
  have hw' := fileByte_write (hnp j) blk p
  simp only [hs₁.mapped_eq_iff hbn hb₁ hb0] at hw'
  simp only [s', Sys.put_inodes, Sys.put_fs, Ctx.writeBlock_ip, Ctx.writeBlock_data,
    Sys.put_put] at hw' ⊢
  rw [hw']
  by_cases hin : j = i ∧ p / G.bsize = bn
  · obtain ⟨rfl, hpb⟩ := hin
    rw [if_pos ⟨⟨rfl, hpb⟩, hb0⟩]
    simp only [blk, copyIn]
    by_cases hc : off ≤ p ∧ p < off + m
    · obtain ⟨-, h1, h2⟩ := (chunk_iff G.bsize_pos hm).1 hc
      rw [if_pos ⟨h1, h2⟩, if_pos ⟨trivial, hc⟩, chunk_mod G.bsize_pos hm hc]
    rw [if_neg (fun h => hc ((chunk_iff G.bsize_pos hm).2 ⟨hpb, h⟩)), if_neg (fun h => hc h.2)]
    cases z
    · obtain ⟨h1, h2⟩ := hz rfl
      exact absurd ((chunk_iff G.bsize_pos hm).2 ⟨hpb, by omega,
        by have := Nat.mod_lt p G.bsize_pos; omega⟩) hc
    have hmap : mapped G c₁.ip c₁.fs.buf.data (p / G.bsize) = b := by
      rw [hpb, mapped, if_pos hbn, hsb]
    have hfb : fileByte G c₁.ip c₁.fs.buf.data p = c₁.fs.buf.data b (p % G.bsize) := by
      rw [fileByte_of_mapped G (by rw [hmap]; exact hb0), hmap]
    rw [← hfb]
    simpa using hs.fileByte_bmap hE hb hbn (j := j) (p := p) (.inl rfl)
  · rw [if_neg (fun h => hin h.1), if_neg (fun h => hin ⟨h.1,
      ((chunk_iff G.bsize_pos hm).1 h.2).1⟩)]
    exact hs.fileByte_bmap hE hb hbn (.inr (not_and_or.1 hin))

/-- One chunk of `readi`: `bmap` of the chunk's block, zeroing what it takes, returned `b`.
Block ownership holds afterwards, no byte changed, and the chunk's bytes are the bytes of
`b` from `off % BSIZE` on. -/
theorem Owned.readChunk (hE : E.Sane) (hs : Owned E Meta s) {off m b : Nat} {trans : Bool}
    {c₁ : Ctx} (hb : bmap E (off / E.geo.bsize) trans true (s.ctx i) = .ok b c₁)
    (hbn : off / E.geo.bsize < E.geo.maxfile) (hm : m ≤ E.geo.bsize - off % E.geo.bsize) :
    Owned E Meta (s.put i c₁) ∧ (∃ a, c₁.ip = { s.inodes i with addrs := a }) ∧
      (∀ j p, fileByte E.geo ((s.put i c₁).inodes j) (s.put i c₁).fs.buf.data p =
        fileByte E.geo (s.inodes j) s.fs.buf.data p) ∧
      ∀ k < m, c₁.fs.buf.data b (off % E.geo.bsize + k) =
        fileByte E.geo (s.inodes i) s.fs.buf.data (off + k) := by
  obtain ⟨hg, hw, hsb, hb0, -⟩ := Sv6Fs.bmap_ok hE (hs.wf i) hbn hb
  have hbytes := fun j p => hs.fileByte_bmap hE hb hbn (j := j) (p := p) (.inl rfl)
  refine ⟨hs.put hg hw, hg.ip, hbytes, fun k hk => ?_⟩
  have hc : off ≤ off + k ∧ off + k < off + m := ⟨by omega, by omega⟩
  obtain ⟨hq, h1, -⟩ := (chunk_iff E.geo.bsize_pos hm).1 hc
  have hmod := chunk_mod E.geo.bsize_pos hm hc
  have hmap : mapped E.geo c₁.ip c₁.fs.buf.data ((off + k) / E.geo.bsize) = b := by
    rw [hq, mapped, if_pos hbn, hsb]
  rw [← hbytes i (off + k), Sys.put_inodes, Function.update_same,
    fileByte_of_mapped E.geo (by rw [hmap]; exact hb0), hmap]
  congr 1
  omega

/-- Two states of a call that agree on all that block ownership and the bytes of the files
read: the inode, the cached data, the free-bit-vector and the pending frees. Logging a block
and writing it back change nothing else. -/
structure Ctx.Agree (c c' : Ctx) : Prop where
  ip : c'.ip = c.ip
  data : c'.fs.buf.data = c.fs.buf.data
  free : c'.fs.free = c.fs.free
  freeBlocks : c'.fs.tx.freeBlocks = c.fs.tx.freeBlocks

theorem Ctx.Agree.trans {c₁ c₂ c₃ : Ctx} (h₁ : c₁.Agree c₂) (h₂ : c₂.Agree c₃) : c₁.Agree c₃ :=
  ⟨h₂.ip.trans h₁.ip, h₂.data.trans h₁.data, h₂.free.trans h₁.free,
    h₂.freeBlocks.trans h₁.freeBlocks⟩

/-- A step guarded by a test, which returns in a state that agrees with its start, then the
rest `k` of the call: the call returns what `k` returns from some agreeing state. -/
theorem Ctx.Agree.ite_bind {α : Type} {q : Prop} [Decidable q] {x : FsM PUnit}
    (hx : ∀ c, ∃ c', x c = .ok ⟨⟩ c' ∧ c.Agree c') {k : PUnit → FsM α} {c : Ctx}
    {P : α → Ctx → Prop} (h : ∀ c', c.Agree c' → ∃ r c'', k ⟨⟩ c' = .ok r c'' ∧ P r c'') :
    ∃ r c'', (if q then x >>= k else pure ⟨⟩ >>= k) c = .ok r c'' ∧ P r c'' := by
  split
  · obtain ⟨c', hc, ha⟩ := hx c
    rw [FsM.bind_apply, hc]
    exact h c' ha
  · exact h c ⟨rfl, rfl, rfl, rfl⟩

theorem logBlock_agree (b : Nat) (c : Ctx) : ∃ c', logBlock b c = .ok ⟨⟩ c' ∧ c.Agree c' :=
  ⟨_, rfl, ⟨rfl, rfl, rfl, rfl⟩⟩

theorem writebackAsync_agree (b : Nat) (c : Ctx) :
    ∃ c', writebackAsync b c = .ok ⟨⟩ c' ∧ c.Agree c' :=
  ⟨_, rfl, ⟨rfl, rfl, rfl, rfl⟩⟩

/-- Block ownership and the bytes only see what agreeing states share. -/
theorem Owned.put_agree (hs : Owned E Meta (s.put i c)) {c' : Ctx} (h : c.Agree c') :
    Owned E Meta (s.put i c') ∧ ∀ j p, fileByte E.geo ((s.put i c').inodes j) (s.put i c').fs.buf.data p =
      fileByte E.geo ((s.put i c).inodes j) (s.put i c).fs.buf.data p := by
  have hin : (s.put i c').inodes = (s.put i c).inodes := by simp [h.ip]
  have hd : (s.put i c').fs.buf.data = (s.put i c).fs.buf.data := h.data
  refine ⟨hs.of_slots (fun j τ _ => by rw [hin, hd]) h.free h.freeBlocks, fun j p => ?_⟩
  rw [hin, hd]

end Chunks

/-! ## Mapped blocks -/

section Mapped

variable {E : Env}

theorem ensureAddr_of_ne {c : Ctx} {k : Nat} (h : c.ip.addrs k ≠ 0) (trans z : Bool) :
    ensureAddr E k trans z c = .ok (c.ip.addrs k) c := by
  simp [ensureAddr, h]

/-- A nonzero entry sits in a present block, and is read through the cache. -/
theorem ensureEntry_of_ne {c : Ctx} {b k : Nat} (h : entryAt c.fs.buf.data b k ≠ 0)
    (trans z : Bool) : ensureEntry E b k trans z c = .ok (entryAt c.fs.buf.data b k) c := by
  by_cases hb : b = 0
  · simp [entryAt, hb] at h
  · have he : c.entry b k = entryAt c.fs.buf.data b k := by simp [entryAt, hb, Ctx.entry]
    simp [ensureEntry, he, h]

theorem entryAt_root_ne_zero {data : Nat → Block} {b k : Nat} (h : entryAt data b k ≠ 0) :
    b ≠ 0 := fun hb => h (by simp [entryAt, hb])

/-- `bmap` of a logical block that is mapped reads the tiers and allocates nothing. -/
theorem bmap_of_mapped {c : Ctx} {bn : Nat} (hbn : bn < E.geo.maxfile)
    (h : slotVal E.geo c.ip c.fs.buf.data (dataSlot E.geo bn) ≠ 0) (trans z : Bool) :
    bmap E bn trans z c = .ok (slotVal E.geo c.ip c.fs.buf.data (dataSlot E.geo bn)) c := by
  unfold bmap
  by_cases h1 : bn < E.geo.ndirect
  · simp only [dataSlot, h1, if_true] at h ⊢
    exact ensureAddr_of_ne h trans z
  by_cases h2 : bn - E.geo.ndirect < E.geo.nindirect
  · simp only [dataSlot, h1, h2, if_true, if_false, slotVal] at h ⊢
    rw [FsM.bind_apply, ensureAddr_of_ne (entryAt_root_ne_zero h)]
    exact ensureEntry_of_ne h trans z
  · have h3 : ¬ E.geo.nindirect * E.geo.nindirect ≤ bn - E.geo.ndirect - E.geo.nindirect := by
      unfold Geometry.maxfile at hbn; omega
    simp only [dataSlot, h1, h2, h3, if_false, slotVal] at h ⊢
    rw [FsM.bind_apply, ensureAddr_of_ne (entryAt_root_ne_zero (entryAt_root_ne_zero h))]
    dsimp only
    rw [FsM.bind_apply, ensureEntry_of_ne (entryAt_root_ne_zero h)]
    exact ensureEntry_of_ne h trans z

end Mapped

section Loops

variable {E : Env} {Meta : Nat → Prop} {i : Nat}

/-- The loop of `writei`, from byte `tot` of the request at file offset `off`, over a range
that stays below `MAXFILE * BSIZE`, returns: it keeps block ownership and the inode's fields
other than its addresses, frees no block, and stops at some count `cnt` (all `n` bytes, or
fewer when `bmap` ran out of blocks, which leaves the allocator with none to give, then
returning -1 if it wrote nothing); the bytes it changed are exactly `[off, off + cnt - tot)`
of file `i`, which hold the source's bytes. -/
theorem Owned.writeiLoop_ok (hE : E.Sane) (src : Nat → UInt8) (trans writeback : Bool) (n : Nat) :
    ∀ off tot (s : Sys), Owned E Meta s → tot ≤ n → tot ≤ off →
      off - tot + n ≤ E.geo.maxfile * E.geo.bsize →
      ∃ r c', writeiLoop E src trans writeback n off tot (s.ctx i) = .ok r c' ∧
      Owned E Meta (s.put i c') ∧ (∃ a, c'.ip = { s.inodes i with addrs := a }) ∧
      (∀ b, c'.fs.free b = true → s.fs.free b = true) ∧
      ∃ cnt, tot ≤ cnt ∧ cnt ≤ n ∧ (r = toInt32 cnt ∨ cnt = 0 ∧ r = -1 ∧ cnt < n) ∧
        (cnt < n → E.size ≤ E.allocBlock c'.fs.free) ∧ ∀ j p, fileByte E.geo ((s.put i c').inodes j) (s.put i c').fs.buf.data p =
          if j = i ∧ off ≤ p ∧ p < off + (cnt - tot) then src (p - (off - tot))
          else fileByte E.geo (s.inodes j) s.fs.buf.data p := by
  intro off tot
  induction off, tot using writeiLoop.induct E src trans writeback n with
  | case1 off tot htn m ih =>
    intro s hs hn hto hrange
    have hm : m ≤ E.geo.bsize - off % E.geo.bsize := min_le_right _ _
    have hmn : m ≤ n - tot := min_le_left _ _
    have hm0 : 0 < m := chunk_pos E.geo off htn
    have hbn : off / E.geo.bsize < E.geo.maxfile :=
      Nat.div_lt_of_lt_mul (by rw [Nat.mul_comm]; omega)
    rw [writeiLoop, dif_pos htn, FsM.bind_apply]
    rcases hx : catchOob (bmap E (off / E.geo.bsize) trans _) (s.ctx i) with ⟨_ | b, c₁⟩ | ⟨e, c₁⟩
    · -- out of blocks: nothing more is written
      obtain ⟨_, ⟨⟩, -⟩ | ⟨-, hb⟩ := catchOob_ok hx
      obtain ⟨-, hs₁, hip, hbytes⟩ := hs.bmap_error_put hE hb hbn
      obtain ⟨-, hg, -, hfull⟩ := Sv6Fs.bmap_error hE (hs.wf i) hbn hb
      refine ⟨_, _, rfl, hs₁, hip, hg.free, tot, le_rfl, hn, ?_, fun _ => hfull, fun j p => ?_⟩
      · by_cases h0 : tot = 0
        · exact .inr ⟨h0, if_pos h0, htn⟩
        · exact .inl (if_neg h0)
      · rw [hbytes, if_neg (by omega)]
    · -- the chunk is written, logged or written back, and the loop goes on
      obtain ⟨_, ⟨⟩, hb⟩ | ⟨⟨⟩, -⟩ := catchOob_ok hx
      dsimp only
      rw [FsM.bind_apply, FsM.modify_apply]
      dsimp only
      refine Ctx.Agree.ite_bind (logBlock_agree b) fun c₃ hl => ?_
      dsimp only
      refine Ctx.Agree.ite_bind (writebackAsync_agree b) fun c₄ hwb => ?_
      obtain ⟨hs₂, hbytes₂⟩ := hs.writeChunk hE hb hbn hm
        (fun hz => of_decide_eq_true ((Bool.not_eq_false' _).mp hz))
        (fun k => src (tot + k))
      obtain ⟨hs₄, hbytes₄⟩ := hs₂.put_agree (hl.trans hwb)
      obtain ⟨r, c', he, hs', ⟨a, hip⟩, hfree, cnt, hcnt, hcn, hr, hfull, hbytes⟩ :=
        ih (s.put i c₄) hs₄ (by omega) (by omega) (by omega)
      have hg := (Sv6Fs.bmap_ok hE (hs.wf i) hbn hb).1
      obtain ⟨a₁, hip₁⟩ := hg.ip
      have hip₄ : c₄.ip = { s.inodes i with addrs := a₁ } := (hl.trans hwb).ip.trans hip₁
      have hfree₄ : c₄.fs.free = c₁.fs.free := (hl.trans hwb).free
      rw [Sys.put_ctx] at he
      refine ⟨r, c', he, by simpa using hs', ⟨a, by rw [hip, Sys.put_inodes, Function.update_same,
        hip₄]⟩, fun b h => hg.free b (hfree₄ ▸ hfree b h), cnt, by omega, hcn, hr, hfull,
        fun j p => ?_⟩
      rw [Sys.put_put] at hbytes
      rw [hbytes, hbytes₄, hbytes₂]
      by_cases hj : j = i
      · simp only [hj, true_and, Nat.add_sub_add_right]
        rw [show off + m + (cnt - (tot + m)) = off + (cnt - tot) by omega]
        have hab : ∀ p, off ≤ p → p < off + m → src (tot + (p - off)) = src (p - (off - tot)) :=
          fun p h _ => by congr 1; omega
        exact ite_split_range _ _ _ (by omega) (by omega) hab p
      · simp only [hj, false_and, if_false]
    · exact absurd (hs.bmap_error_put hE (catchOob_error hx).2 hbn).1 (catchOob_error hx).1
  | case2 off tot htn =>
    intro s hs hn _ _
    rw [writeiLoop, dif_neg htn]
    refine ⟨_, _, rfl, by simpa using hs, ⟨_, rfl⟩, fun _ => id, tot, le_rfl, hn, .inl rfl,
      fun h => absurd h htn, fun j p => ?_⟩
    rw [if_neg (by omega)]
    simp

/-- The loop of `readi`, from byte `tot` of the request at file offset `off`, over a range
that stays below `MAXFILE * BSIZE`: it panics only when `bmap` runs out of blocks for a hole,
which stays a hole and leaves the allocator with no block to give; otherwise it keeps block
ownership, the inode's fields other than its addresses and every byte of every file, frees
no block, and fills bytes `[tot, n)` of the destination with the file's bytes from `off`
on. -/
theorem Owned.readiLoop_ok (hE : E.Sane) (n : Nat) :
    ∀ dst off tot (s : Sys), Owned E Meta s → tot ≤ n → tot ≤ off →
      off - tot + n ≤ E.geo.maxfile * E.geo.bsize →
      (∃ d c', readiLoop E n dst off tot (s.ctx i) = .ok d c' ∧
        Owned E Meta (s.put i c') ∧ (∃ a, c'.ip = { s.inodes i with addrs := a }) ∧
        (∀ b, c'.fs.free b = true → s.fs.free b = true) ∧
        (∀ j p, fileByte E.geo ((s.put i c').inodes j) (s.put i c').fs.buf.data p =
          fileByte E.geo (s.inodes j) s.fs.buf.data p) ∧
        ∀ k, d k = if tot ≤ k ∧ k < n then fileByte E.geo (s.inodes i) s.fs.buf.data (off - tot + k)
          else dst k) ∨
      ∃ c', readiLoop E n dst off tot (s.ctx i) = .error (.panic "readi: out of blocks") c' ∧
        (∃ a, c'.ip = { s.inodes i with addrs := a }) ∧ E.size ≤ E.allocBlock c'.fs.free ∧
        ∃ p, off ≤ p ∧ p < off - tot + n ∧ mapped E.geo c'.ip c'.fs.buf.data (p / E.geo.bsize) = 0 := by
  intro dst off tot
  induction dst, off, tot using readiLoop.induct E n with
  | case1 dst off tot htn ih =>
    intro s hs hn hto hrange
    have hm : min (n - tot) (E.geo.bsize - off % E.geo.bsize) ≤ E.geo.bsize - off % E.geo.bsize :=
      min_le_right _ _
    have hmn : min (n - tot) (E.geo.bsize - off % E.geo.bsize) ≤ n - tot := min_le_left _ _
    have hm0 := chunk_pos E.geo off htn
    have hbn : off / E.geo.bsize < E.geo.maxfile :=
      Nat.div_lt_of_lt_mul (by rw [Nat.mul_comm]; omega)
    rw [readiLoop, dif_pos htn, FsM.bind_apply]
    rcases hx : catchOob (bmap E (off / E.geo.bsize) false true) (s.ctx i) with
      ⟨_ | b, c₁⟩ | ⟨e, c₁⟩
    · -- out of blocks for the block at `off`, a hole, which stays one
      obtain ⟨_, ⟨⟩, -⟩ | ⟨-, hb⟩ := catchOob_ok hx
      obtain ⟨-, hg, -, hfull⟩ := Sv6Fs.bmap_error hE (hs.wf i) hbn hb
      have hv := dataSlot_valid E.geo hbn
      have h0 : slotVal E.geo (s.inodes i) s.fs.buf.data (dataSlot E.geo (off / E.geo.bsize)) = 0 :=
        by_contra fun h => nomatch hb.symm.trans (bmap_of_mapped hbn h false true)
      refine .inr ⟨c₁, rfl, hg.ip, hfull, off, le_rfl, by omega, ?_⟩
      rw [mapped, if_pos hbn, hg.slot_keep hv (by simp [dataSlot_not_isPtr])]
      exact h0
    · obtain ⟨_, ⟨⟩, hb⟩ | ⟨⟨⟩, -⟩ := catchOob_ok hx
      obtain ⟨hs₁, ⟨a₁, hip₁⟩, hbytes₁, hread⟩ := hs.readChunk hE hb hbn hm
      have hfree₁ := (Sv6Fs.bmap_ok hE (hs.wf i) hbn hb).1.free
      dsimp only
      rw [FsM.bind_apply, FsM.get_apply]
      dsimp only
      rcases ih b c₁ (s.put i c₁) hs₁ (by omega) (by omega) (by omega) with
        ⟨d, c', he, hs', ⟨a, hip⟩, hfree, hbytes, hd⟩ | ⟨c', he, ⟨a, hip⟩, hfull, p, hp₁, hp₂, hp⟩
      · rw [Sys.put_ctx] at he
        refine .inl ⟨d, c', he, by simpa using hs', ⟨a, by rw [hip, Sys.put_inodes,
          Function.update_same, hip₁]⟩, fun b h => hfree₁ b (hfree b h),
          fun j p => by rw [← hbytes₁, ← hbytes, Sys.put_put], fun k => ?_⟩
        rw [hd, hbytes₁, copyOut, Nat.add_sub_add_right]
        have hab : ∀ k, tot ≤ k → k < tot + min (n - tot) (E.geo.bsize - off % E.geo.bsize) →
            c₁.fs.buf.data b (off % E.geo.bsize + (k - tot)) =
              fileByte E.geo (s.inodes i) s.fs.buf.data (off - tot + k) := fun k h₁ h₂ =>
          (hread _ (by omega)).trans (by congr 1; omega)
        exact ite_split_range _ _ _ (by omega) (by omega) hab k
      · rw [Sys.put_ctx] at he
        exact .inr ⟨c', he, ⟨a, by rw [hip, Sys.put_inodes, Function.update_same, hip₁]⟩, hfull,
          p, by omega, by omega, hp⟩
    · exact absurd (hs.bmap_error_put hE (catchOob_error hx).2 hbn).1 (catchOob_error hx).1
  | case2 dst off tot htn =>
    intro s hs _ _ _
    rw [readiLoop, dif_neg htn]
    refine .inl ⟨_, _, rfl, by simpa using hs, ⟨_, rfl⟩, fun _ => id, fun j p => by simp,
      fun k => ?_⟩
    rw [if_neg (by omega)]

/-- `writei`'s loop over a request of `n` bytes inside one mapped block: one chunk, no
allocation, all `n` bytes written. -/
theorem writeiLoop_mapped {c : Ctx} (src : Nat → UInt8) (trans writeback : Bool) {n off : Nat}
    (hn : 0 < n) (hm : n ≤ E.geo.bsize - off % E.geo.bsize) (hbn : off / E.geo.bsize < E.geo.maxfile)
    (hmap : slotVal E.geo c.ip c.fs.buf.data (dataSlot E.geo (off / E.geo.bsize)) ≠ 0) :
    ∃ r c', writeiLoop E src trans writeback n off 0 c = .ok r c' ∧ r = toInt32 n ∧
      (c.writeBlock (slotVal E.geo c.ip c.fs.buf.data (dataSlot E.geo (off / E.geo.bsize)))
        (copyIn (c.fs.buf.data (slotVal E.geo c.ip c.fs.buf.data (dataSlot E.geo (off / E.geo.bsize))))
          (off % E.geo.bsize) n src)).Agree c' := by
  have hmin : min (n - 0) (E.geo.bsize - off % E.geo.bsize) = n := by omega
  rw [writeiLoop, dif_pos hn, FsM.bind_apply]
  simp only [catchOob, bmap_of_mapped hbn hmap, FsM.bind_apply, FsM.modify_apply, hmin,
    Nat.zero_add]
  refine Ctx.Agree.ite_bind (logBlock_agree _) fun c₃ hl => ?_
  refine Ctx.Agree.ite_bind (writebackAsync_agree _) fun c₄ hwb => ⟨_, c₄, ?_, rfl, hl.trans hwb⟩
  rw [writeiLoop, dif_neg (by omega)]
  rfl

end Loops

end Sv6Fs
