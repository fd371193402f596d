import Sv6Fs.BackedFile
import Sv6Fs.Journal

/-! # What `writei` logs

A transaction's commit (`commit_transaction`) writes back the dirty buffers of the blocks it
holds snapshots of, and no others. A block a call dirtied and never handed to
`add_to_transaction` keeps its new bytes in the cache only, while the blocks that point to
it reach the disk.

`writei` with a transaction and no write-back hands each data block it writes to the
transaction, and `bmap` hands over each indirect block whose entry it sets. `balloc` zeroes
the blocks it takes for indirect blocks in the cache and logs nothing; `bmap` logs such a
block when it sets its first entry, right after. When `bmap` runs out of blocks between the
two, the zeroed block is left out.

* `writei_logs`: every block `writei` dirties is in the transaction, except, when it came
  back short, blocks that were free, hold zeros, and are indirect blocks of the inode.
* `writei_unlogged_indirect`: with one block left, a write at the start of the indirect
  tier takes it for the indirect block, which the inode then points to, and returns -1; the
  block is dirty and in no snapshot, so a commit leaves its old bytes on the disk.
* `dirFlushEntry_logs`: `dir_flush_entry` panics on a short write, so when it returns, every
  block it dirtied is in the transaction.
-/

namespace Sv6Fs

/-- Block `x` is dirty in the cache of `f`, was clean in that of `f₀`, and has no snapshot in
the transaction of `f`: a commit of that transaction leaves its bytes in the cache. -/
structure Unlogged (f₀ f : Fs) (x : Nat) : Prop where
  dirty : f.buf.dirty x = true
  clean : f₀.buf.dirty x = false
  notLogged : x ∉ f.tx.blocks.map DiskBlock.blocknum

section Primitives

variable {f₀ : Fs} {c : Ctx} {x : Nat}

theorem Unlogged.irrefl {f : Fs} : ¬ Unlogged f f x := fun h => by
  have := h.clean
  rw [h.dirty] at this
  cases this

/-- A write dirties its block only. -/
theorem Unlogged.of_writeBlock {b : Nat} {blk : Block} (h : Unlogged f₀ (c.writeBlock b blk).fs x) :
    Unlogged f₀ c.fs x ∨ x = b := by
  by_cases hx : x = b
  · exact .inr hx
  · exact .inl ⟨by simpa [Ctx.writeBlock, hx] using h.dirty, h.clean, h.notLogged⟩

/-- A snapshot logs its block. -/
theorem Unlogged.of_logBlock {b : Nat} (h : Unlogged f₀ (c.logBlock b).fs x) :
    Unlogged f₀ c.fs x ∧ x ≠ b := by
  have hx : x ∉ (c.fs.tx.blocks ++ [DiskBlock.mk b (c.fs.buf.data b)]).map DiskBlock.blocknum :=
    h.notLogged
  simp only [List.map_append, List.mem_append, not_or] at hx
  exact ⟨⟨h.dirty, h.clean, hx.1⟩, by simpa using hx.2⟩

/-- `balloc` dirties the block it takes, when it zeroes it, and logs nothing. -/
theorem Unlogged.of_takeBlock {v : Nat} {trans zero : Bool}
    (h : Unlogged f₀ (c.takeBlock v trans zero).fs x) : Unlogged f₀ c.fs x ∨ x = v := by
  by_cases hx : x = v
  · exact .inr hx
  refine .inl ⟨?_, h.clean, ?_⟩
  · have := h.dirty
    cases zero <;> simpa [Ctx.takeBlock, Ctx.writeBlock, hx] using this
  · have := h.notLogged
    cases zero <;> cases trans <;> simpa [Ctx.takeBlock] using this

end Primitives

/-! ## `bmap` with a transaction -/

section Bmap

variable {E : Env} {f₀ : Fs} {c c' : Ctx} {x : Nat}

/-- `ensureAddr` dirties at most the block it takes for the slot. -/
theorem ensureAddr_unlogged {k v : Nat} {trans zero : Bool}
    (h : ensureAddr E k trans zero c = .ok v c') (hx : Unlogged f₀ c'.fs x) :
    Unlogged f₀ c.fs x ∨ x = v ∧ c.ip.addrs k = 0 := by
  by_cases ha : c.ip.addrs k = 0
  · simp only [ensureAddr, FsM.bind_apply, FsM.get_apply, ha, if_true, balloc_apply] at h
    by_cases hlt : E.allocBlock c.fs.free < E.size
    · simp only [hlt, if_true, FsM.modify_apply, FsM.get_apply, FsM.pure_apply,
        EStateM.Result.ok.injEq] at h
      obtain ⟨rfl, rfl⟩ := h
      exact (Unlogged.of_takeBlock hx).imp_right fun e => ⟨by simpa using e, ha⟩
    · simp [hlt] at h
  · simp only [ensureAddr, FsM.bind_apply, FsM.get_apply, ha, if_false, FsM.pure_apply,
      EStateM.Result.ok.injEq] at h
    obtain ⟨rfl, rfl⟩ := h
    exact .inl hx

/-- `ensureEntry` with a transaction logs the block whose entry it sets, so it leaves out at
most the block it takes for the entry. -/
theorem ensureEntry_unlogged (hE : E.Sane) {b i v : Nat} {zero : Bool}
    (h : ensureEntry E b i true zero c = .ok v c') (hx : Unlogged f₀ c'.fs x) :
    (Unlogged f₀ c.fs x ∧ (c.entry b i = 0 → x ≠ b)) ∨ x = v ∧ c.entry b i = 0 := by
  by_cases ha : c.entry b i = 0
  · simp only [ensureEntry, FsM.bind_apply, FsM.get_apply, ha, if_true, balloc_apply] at h
    by_cases hlt : E.allocBlock c.fs.free < E.size
    · simp only [hlt, if_true, writeWord, logBlock, FsM.modify_apply, FsM.get_apply,
        FsM.pure_apply, EStateM.Result.ok.injEq] at h
      obtain ⟨rfl, rfl⟩ := h
      obtain ⟨hx, hxb⟩ := Unlogged.of_logBlock hx
      rcases Unlogged.of_writeBlock hx with hx | hx
      · refine (Unlogged.of_takeBlock hx).imp (fun hx => ⟨hx, fun _ => hxb⟩) fun e => ⟨?_, ha⟩
        simp [e, Ctx.entry, Nat.mod_eq_of_lt (lt_of_lt_of_le hlt hE.size_le)]
      · exact absurd hx hxb
    · simp [hlt] at h
  · simp only [ensureEntry, FsM.bind_apply, FsM.get_apply, ha, if_false, FsM.pure_apply,
      EStateM.Result.ok.injEq] at h
    obtain ⟨rfl, rfl⟩ := h
    exact .inl ⟨hx, fun h => absurd h ha⟩

/-- A block that a fill put into an empty slot was free before and is in use after. -/
theorem Grows.fresh_of_fill {G : Geometry} {A : Slot → Prop} (g : Grows G A c c') {τ : Slot}
    (hτ : τ.Valid G) (h0 : slotVal G c.ip c.fs.buf.data τ = 0)
    (hv : slotVal G c'.ip c'.fs.buf.data τ ≠ 0) :
    c.fs.free (slotVal G c'.ip c'.fs.buf.data τ) = true ∧
      c'.fs.free (slotVal G c'.ip c'.fs.buf.data τ) = false := by
  rcases g.slot τ hτ with e | ⟨-, -, f, f'⟩
  · exact absurd (e.trans h0) hv
  · exact ⟨f, f'⟩

/-- A block that a growth of pointer slots took is one of the inode's indirect blocks. -/
theorem Grows.isPtr_of_alloc {G : Geometry} {P : Slot → Prop}
    (g : Grows G (fun τ => τ.isPtr ∧ P τ) c c') (hc : Wf G c) (hf : c.fs.free x = true)
    (hf' : c'.fs.free x = false) : IsPtr G c'.ip c'.fs.buf.data x := by
  obtain ⟨hx0, hxs⟩ := hc.fresh hf
  obtain ⟨τ, hτ, rfl⟩ := g.alloc _ hx0 hf hf'
  rcases g.slot τ hτ with e | ⟨⟨hp, -⟩, -⟩
  · exact absurd e (hxs τ hτ).symm
  · exact isPtr_of_slot G hτ hp hx0

/-- The first entry of a zeroed block is 0. -/
theorem Ctx.entry_of_zero {b i : Nat} (h : c.fs.buf.data b = zeroBlock) : c.entry b i = 0 := by
  simp [Ctx.entry, h]

/-- A `bmap` with a transaction that returns `v` leaves out of the transaction at most `v`
among the blocks it dirtied: each indirect block it takes is zeroed, so its entry is then
set, and the block logged. -/
theorem bmap_unlogged_ok (hE : E.Sane) (hc : Wf E.geo c) {bn v : Nat} {zero : Bool}
    (hbn : bn < E.geo.maxfile) (h : bmap E bn true zero c = .ok v c')
    (hx : Unlogged f₀ c'.fs x) : Unlogged f₀ c.fs x ∨ x = v := by
  unfold bmap at h
  split at h
  · exact (ensureAddr_unlogged h hx).imp_right And.left
  split at h
  · rename_i h1 h2
    have hv := dataSlot_ind h1 h2 ▸ dataSlot_valid E.geo hbn
    obtain ⟨ind, c₁, h₁, h₂⟩ := FsM.bind_ok h
    obtain ⟨-, -, s₁, -, z₁⟩ := ensureAddr_ok hE hc (σ := .indRoot) trivial rfl (fun _ => rfl) h₁
    rcases ensureEntry_unlogged hE h₂ hx with ⟨hx, hne⟩ | ⟨rfl, -⟩
    · rcases ensureAddr_unlogged h₁ hx with hx | ⟨rfl, ha⟩
      · exact .inl hx
      · -- a new indirect block holds zeros, so `ensureEntry` set its entry and logged it
        exact absurd rfl (hne (Ctx.entry_of_zero
          (z₁ ((slotVal_of_addr E.geo (τ := .indRoot) rfl).trans ha) rfl)))
    · exact .inr rfl
  split at h
  · simp at h
  rename_i h1 h2 _
  have hv := dataSlot_dbl h1 h2 ▸ dataSlot_valid E.geo hbn
  obtain ⟨d1, c₁, h₁, h'⟩ := FsM.bind_ok h
  obtain ⟨d2, c₂, h₂, h₃⟩ := FsM.bind_ok h'
  obtain ⟨-, w₁, s₁, b₁, z₁⟩ := ensureAddr_ok hE hc (σ := .dblRoot) trivial rfl (fun _ => rfl) h₁
  obtain ⟨-, -, -, -, z₂⟩ :=
    ensureEntry_ok hE w₁ (ρ := .dblRoot) trivial rfl s₁ b₁ hv.1 (fun _ => rfl) h₂
  rcases ensureEntry_unlogged hE h₃ hx with ⟨hx, hne₃⟩ | ⟨rfl, -⟩
  · rcases ensureEntry_unlogged hE h₂ hx with ⟨hx, hne₂⟩ | ⟨rfl, ha₂⟩
    · rcases ensureAddr_unlogged h₁ hx with hx | ⟨rfl, ha₁⟩
      · exact .inl hx
      · exact absurd rfl (hne₂ (Ctx.entry_of_zero
          (z₁ ((slotVal_of_addr E.geo (τ := .dblRoot) rfl).trans ha₁) rfl)))
    · -- a new second-level block holds zeros, so its entry was set and the block logged
      refine absurd rfl (hne₃ (Ctx.entry_of_zero (z₂ ?_ rfl)))
      rw [← Ctx.entry_child (π := .dblRoot) rfl s₁ b₁]
      exact ha₂
  · exact .inr rfl

/-- A `bmap` with a transaction that runs out of blocks leaves out of the transaction, among
the blocks it dirtied, only blocks it took: free before, in use after, and zeroed. -/
theorem bmap_unlogged_error (hE : E.Sane) (hc : Wf E.geo c) {bn : Nat} {zero : Bool} {e : Fault}
    (hbn : bn < E.geo.maxfile) (h : bmap E bn true zero c = .error e c')
    (hx : Unlogged f₀ c'.fs x) :
    Unlogged f₀ c.fs x ∨
      c.fs.free x = true ∧ c'.fs.free x = false ∧ c'.fs.buf.data x = zeroBlock := by
  -- a top slot `ensureAddr` filled: its block is fresh and zeroed
  have top : ∀ {σ : Slot} {k v : Nat} {c₁ : Ctx}, σ.Valid E.geo → σ.addr E.geo = some k →
      σ.isPtr → ensureAddr E k true true c = .ok v c₁ → c.ip.addrs k = 0 →
      c.fs.free v = true ∧ c₁.fs.free v = false ∧ c₁.fs.buf.data v = zeroBlock :=
    fun hσ hk hp h₁ ha => by
      obtain ⟨g₁, -, s₁, b₁, z₁⟩ := ensureAddr_ok hE hc hσ hk (fun _ => rfl) h₁
      have h0 : slotVal E.geo c.ip c.fs.buf.data _ = 0 := (slotVal_of_addr E.geo hk).trans ha
      have hf := g₁.fresh_of_fill hσ h0 (s₁ ▸ b₁)
      rw [s₁] at hf
      exact ⟨hf.1, hf.2, z₁ h0 rfl⟩
  unfold bmap at h
  split at h
  · obtain ⟨-, rfl, -⟩ := ensureAddr_error h
    exact .inl hx
  split at h
  · rcases FsM.bind_error h with h₁ | ⟨ind, c₁, h₁, h₂⟩
    · obtain ⟨-, rfl, -⟩ := ensureAddr_error h₁
      exact .inl hx
    obtain ⟨-, rfl, -⟩ := ensureEntry_error h₂
    exact (ensureAddr_unlogged h₁ hx).imp_right fun ⟨e, ha⟩ =>
      e ▸ top (σ := .indRoot) trivial rfl rfl h₁ ha
  split at h
  · exact .inl (by simp at h; obtain ⟨-, rfl⟩ := h; exact hx)
  rename_i h1 h2 _
  have hv := dataSlot_dbl h1 h2 ▸ dataSlot_valid E.geo hbn
  rcases FsM.bind_error h with h₁ | ⟨d1, c₁, h₁, h'⟩
  · obtain ⟨-, rfl, -⟩ := ensureAddr_error h₁
    exact .inl hx
  obtain ⟨g₁, w₁, s₁, b₁, z₁⟩ := ensureAddr_ok hE hc (σ := .dblRoot) trivial rfl (fun _ => rfl) h₁
  rcases FsM.bind_error h' with h₂ | ⟨d2, c₂, h₂, h₃⟩
  · obtain ⟨-, rfl, -⟩ := ensureEntry_error h₂
    exact (ensureAddr_unlogged h₁ hx).imp_right fun ⟨e, ha⟩ =>
      e ▸ top (σ := .dblRoot) trivial rfl rfl h₁ ha
  obtain ⟨-, rfl, -⟩ := ensureEntry_error h₃
  obtain ⟨g₂, -, s₂, b₂, z₂⟩ :=
    ensureEntry_ok hE w₁ (ρ := .dblRoot) trivial rfl s₁ b₁ hv.1 (fun _ => rfl) h₂
  rcases ensureEntry_unlogged hE h₂ hx with ⟨hx, hne⟩ | ⟨rfl, ha₂⟩
  · rcases ensureAddr_unlogged h₁ hx with hx | ⟨rfl, ha₁⟩
    · exact .inl hx
    · exact absurd rfl (hne (Ctx.entry_of_zero
        (z₁ ((slotVal_of_addr E.geo (τ := .dblRoot) rfl).trans ha₁) rfl)))
  · -- the second-level block the failed entry was for
    have h0 : slotVal E.geo c₁.ip c₁.fs.buf.data
        (Slot.dblRoot.child ((bn - E.geo.ndirect - E.geo.nindirect) / E.geo.nindirect)) = 0 := by
      rw [← Ctx.entry_child (π := .dblRoot) rfl s₁ b₁]
      exact ha₂
    have hf := g₂.fresh_of_fill (τ := Slot.dblRoot.child _) hv.1 h0 (s₂ ▸ b₂)
    rw [s₂] at hf
    exact .inr ⟨g₁.free _ hf.1, hf.2, z₂ h0 rfl⟩

end Bmap

/-! ## `writei` -/

section Writei

variable {E : Env}

/-- The loop of `writei` with a transaction and no write-back, from byte `tot` of the request
at file offset `off`, over a range that stays below `MAXFILE * BSIZE`: it returns, and every
block it dirtied is in the transaction, except, when it stopped short, blocks that were free,
hold zeros, and are indirect blocks of the inode. -/
theorem writeiLoop_logs (hE : E.Sane) (src : Nat → UInt8) (n : Nat) :
    ∀ off tot (c : Ctx), Wf E.geo c → tot ≤ n → tot ≤ off →
      off - tot + n ≤ E.geo.maxfile * E.geo.bsize →
      ∃ r c', writeiLoop E src true false n off tot c = .ok r c' ∧
        ∃ cnt, tot ≤ cnt ∧ cnt ≤ n ∧ (r = toInt32 cnt ∨ cnt = 0 ∧ r = -1) ∧
          ∀ f₀ x, Unlogged f₀ c'.fs x → Unlogged f₀ c.fs x ∨
            cnt < n ∧ c.fs.free x = true ∧ c'.fs.buf.data x = zeroBlock ∧
              IsPtr E.geo c'.ip c'.fs.buf.data x := by
  intro off tot
  induction off, tot using writeiLoop.induct E src true false n with
  | case1 off tot htn m ih =>
    intro c hw hn hto hrange
    have hm0 : 0 < m := chunk_pos E.geo off htn
    have hbn : off / E.geo.bsize < E.geo.maxfile :=
      Nat.div_lt_of_lt_mul (by rw [Nat.mul_comm]; omega)
    rw [writeiLoop, dif_pos htn, FsM.bind_apply]
    rcases hx : catchOob (bmap E (off / E.geo.bsize) true _) c with ⟨_ | b, c₁⟩ | ⟨e, c₁⟩
    · -- out of blocks: the loop stops where `bmap` left the cache
      obtain ⟨_, ⟨⟩, -⟩ | ⟨-, hb⟩ := catchOob_ok hx
      obtain ⟨-, hg, -⟩ := Sv6Fs.bmap_error hE hw hbn hb
      refine ⟨_, _, rfl, tot, le_rfl, hn, ?_, fun f₀ x hx => ?_⟩
      · by_cases h0 : tot = 0
        · exact .inr ⟨h0, if_pos h0⟩
        · exact .inl (if_neg h0)
      · exact (bmap_unlogged_error hE hw hbn hb hx).imp_right fun ⟨hf, hf', hz⟩ =>
          ⟨htn, hf, hz, hg.isPtr_of_alloc hw hf hf'⟩
    · -- the chunk goes to the data block `b`, which is then logged
      obtain ⟨_, ⟨⟩, hb⟩ | ⟨⟨⟩, -⟩ := catchOob_ok hx
      obtain ⟨hg, hw₁, hbn₁, hb0, -⟩ := Sv6Fs.bmap_ok hE hw hbn hb
      set c₄ := (c₁.writeBlock b (copyIn (c₁.fs.buf.data b) (off % E.geo.bsize) m
        fun k => src (tot + k))).logBlock b
      have hnp : ¬ IsPtr E.geo c₁.ip c₁.fs.buf.data b :=
        hbn₁ ▸ hw₁.inj.not_isPtr E.geo hbn (hbn₁ ▸ hb0)
      have hw₄ : Wf E.geo c₄ :=
        hw₁.of_slots (fun τ hτ => slotVal_writeBlock hnp _ hτ) rfl
      obtain ⟨r, c', he, cnt, hcnt, hcn, hr, hlog⟩ := ih c₄ hw₄ (by omega) (by omega) (by omega)
      refine ⟨r, c', ?_, cnt, by omega, hcn, hr, fun f₀ x hx => ?_⟩
      · simpa [FsM.bind_apply, logBlock, c₄] using he
      rcases hlog f₀ x hx with hx | ⟨hlt, hf, hz, hp⟩
      · obtain ⟨hx, hxb⟩ := Unlogged.of_logBlock hx
        exact .inl (((Unlogged.of_writeBlock hx).resolve_right hxb |>
          bmap_unlogged_ok hE hw hbn hb).resolve_right hxb)
      · exact .inr ⟨by omega, hg.free x hf, hz, hp⟩
    · exact absurd (Sv6Fs.bmap_error hE hw hbn (catchOob_error hx).2).1 (catchOob_error hx).1
  | case2 off tot htn =>
    intro c _ hn _ _
    rw [writeiLoop, dif_neg htn]
    exact ⟨_, _, rfl, tot, le_rfl, hn, .inl rfl, fun _ _ hx => .inl hx⟩

/-- `writei` with a transaction and no write-back, from an offset at most `MAXFILE * BSIZE`,
on a sound tree: it returns a count, and every block it dirtied is in the transaction,
unless it came back short of both its request and the end of the tiers; then the blocks it
left out were free before the call, hold zeros, and are indirect blocks of the inode. -/
theorem writei_logs (hE : E.Sane) (src : Nat → UInt8) {c : Ctx} {off : Nat} (n : Nat)
    (hw : Wf E.geo c) (hoff : off ≤ E.geo.maxfile * E.geo.bsize) :
    ∃ r c', writei E src off n true false c = .ok r c' ∧
      ∃ cnt, cnt ≤ n ∧ (r = toInt32 cnt ∨ cnt = 0 ∧ r = -1) ∧
        ∀ x, Unlogged c.fs c'.fs x → cnt < n ∧ off + cnt < E.geo.maxfile * E.geo.bsize ∧
          c.fs.free x = true ∧ c'.fs.buf.data x = zeroBlock ∧
          IsPtr E.geo c'.ip c'.fs.buf.data x := by
  rcases writei_cases (c := c) src n true false hoff with h | ⟨n', hn', hM, h⟩
  · exact ⟨-1, c, h, 0, Nat.zero_le _, .inr ⟨rfl, rfl⟩, fun x hx => absurd hx Unlogged.irrefl⟩
  obtain ⟨r, c', he, cnt, -, hcn, hr, hlog⟩ := writeiLoop_logs hE src n' off 0 c hw
    (Nat.zero_le _) (Nat.zero_le _) hM
  refine ⟨r, c', h.trans he, cnt, hcn.trans hn', hr, fun x hx => ?_⟩
  rcases hlog c.fs x hx with hx | ⟨hlt, hf, hz, hp⟩
  · exact absurd hx Unlogged.irrefl
  · exact ⟨by omega, by omega, hf, hz, hp⟩

/-- `BSIZE = 64` and `NDIRECT = 1`: an inode with one direct block, block 3; blocks 0 to 18
in use, and block 19 free, clean in the cache, holding old bytes on the disk. -/
def lastBlockCtx : Ctx :=
  ⟨⟨1, .file, 0, 0, 1, 64, 0, fun k => if k = 0 then 3 else 0, none, 0, 1⟩,
    ⟨⟨fun b => if b = 19 then fun _ => 7 else zeroBlock, fun _ => false,
        fun b => if b = 19 then fun _ => 7 else zeroBlock⟩,
      fun b => decide (19 ≤ b), Transaction.empty⟩⟩

theorem lastBlockCtx_wf : Wf smallEnv.geo lastBlockCtx where
  inj σ τ hσ hτ h0 he := by
    obtain ⟨k, hk, rfl⟩ := slot_direct_of_roots (E := smallEnv) rfl rfl hσ h0
    obtain ⟨k', hk', rfl⟩ := slot_direct_of_roots (E := smallEnv) rfl rfl hτ (he ▸ h0)
    have : k < 1 := hk
    have : k' < 1 := hk'
    obtain rfl : k = k' := by omega
    rfl
  used τ hτ h0 := by
    obtain ⟨k, hk, rfl⟩ := slot_direct_of_roots (E := smallEnv) rfl rfl hτ h0
    obtain rfl : k = 0 := by have : k < 1 := hk; omega
    rfl
  zero := rfl

/-- With one block left, a one-byte write with a transaction at the start of the indirect
tier: `bmap` takes block 19 for the indirect block, zeroes it in the cache and points the
inode at it, then runs out of blocks for the data block, and `writei` returns -1. Block 19
is dirty, recorded as allocated, and in no snapshot: a commit of the transaction leaves its
old bytes on the disk, under the inode's pointer. -/
theorem writei_unlogged_indirect :
    ∃ c', writei smallEnv (fun _ => 1) 64 1 true false lastBlockCtx = .ok (-1) c' ∧
      c'.ip.addrs 1 = 19 ∧ Unlogged lastBlockCtx.fs c'.fs 19 ∧
      19 ∈ c'.fs.tx.allocatedBlocks ∧ c'.fs.buf.data 19 = zeroBlock ∧
      (commitTransaction c'.fs.buf c'.fs.tx).dirty 19 = true ∧
      (commitTransaction c'.fs.buf c'.fs.tx).disk 19 = fun _ => 7 := by
  have h : writei smallEnv (fun _ => 1) 64 1 true false lastBlockCtx =
      .ok (-1) ⟨lastBlockCtx.ip.setAddr 1 19, (lastBlockCtx.takeBlock 19 true true).fs⟩ := by
    rw [writei_eq (by decide) (by decide), if_neg (by decide), writeiLoop, dif_pos (by decide)]
    rfl
  exact ⟨_, h, rfl, ⟨rfl, rfl, by decide⟩, by decide, rfl, rfl, rfl⟩

/-- The short write of `writei_unlogged_indirect`, at offset 64, the start of the indirect
tier: the block `writei` leaves out of the transaction is the indirect block it took. -/
theorem writei_logs_last_block :
    smallEnv.Sane ∧ Wf smallEnv.geo lastBlockCtx ∧
      64 ≤ smallEnv.geo.maxfile * smallEnv.geo.bsize ∧
      (∃ r c', writei smallEnv (fun _ => 1) 64 1 true false lastBlockCtx = .ok r c' ∧
        ∃ cnt, cnt ≤ 1 ∧ (r = toInt32 cnt ∨ cnt = 0 ∧ r = -1) ∧
          ∀ x, Unlogged lastBlockCtx.fs c'.fs x → cnt < 1 ∧
            64 + cnt < smallEnv.geo.maxfile * smallEnv.geo.bsize ∧
            lastBlockCtx.fs.free x = true ∧ c'.fs.buf.data x = zeroBlock ∧
            IsPtr smallEnv.geo c'.ip c'.fs.buf.data x) ∧
      ∃ c', writei smallEnv (fun _ => 1) 64 1 true false lastBlockCtx = .ok (-1) c' ∧
        Unlogged lastBlockCtx.fs c'.fs 19 := by
  have hE : smallEnv.Sane := Env.firstFit_sane _ (by decide)
  obtain ⟨c', h, -, h19, -⟩ := writei_unlogged_indirect
  exact ⟨hE, lastBlockCtx_wf, by decide,
    writei_logs hE (fun _ => 1) 1 lastBlockCtx_wf (by decide), c', h, h19⟩

/-- `iupdate` with a transaction logs the inode block it writes, and keeps the inode. -/
theorem iupdate_unlogged (G : Geometry) (c : Ctx) :
    ∃ c', iupdate G true c = .ok () c' ∧ c'.ip = c.ip ∧
      ∀ f₀ x, Unlogged f₀ c'.fs x → Unlogged f₀ c.fs x :=
  ⟨_, rfl, rfl, fun _ _ hx => by
    obtain ⟨hx, hxb⟩ := Unlogged.of_logBlock hx
    exact (Unlogged.of_writeBlock hx).resolve_right hxb⟩

/-- `dir_flush_entry` with a transaction, on a sound tree, of an entry at an offset at most
`MAXFILE * BSIZE`: it panics, or every block it dirtied is in the transaction. The record is
shorter than `2^31` bytes, so `writei` returns `sizeof(dirent)` only when it wrote the whole
record, and then it left no block out; `iupdate` logs the inode block. -/
theorem dirFlushEntry_logs (hE : E.Sane) {c : Ctx} (hw : Wf E.geo c) (name : List UInt8)
    (hds : E.geo.direntSize < 2147483648)
    (hoff : ∀ d, c.ip.dir = some d →
      ((d (strbuf E.geo name)).getD ⟨0, 0⟩).offset ≤ E.geo.maxfile * E.geo.bsize) :
    (∃ c', dirFlushEntry E name true c = .ok () c' ∧ ∀ x, ¬ Unlogged c.fs c'.fs x) ∨
      ∃ c', dirFlushEntry E name true c = .error (.panic "dir_flush_entry") c' := by
  rcases hd : c.ip.dir with _ | d
  · exact .inl ⟨c, by simp [dirFlushEntry, hd], fun _ => Unlogged.irrefl⟩
  set info := (d (strbuf E.geo name)).getD ⟨0, 0⟩
  -- a write that returns `sizeof(dirent)` left no block out
  obtain ⟨r, c₁, he, hfull⟩ : ∃ r c₁, writei E (direntBytes info.inum name) info.offset
      E.geo.direntSize true false c = .ok r c₁ ∧
      (r = E.geo.direntSize → ∀ x, ¬ Unlogged c.fs c₁.fs x) := by
    rcases writei_cases (c := c) (direntBytes info.inum name) E.geo.direntSize true false
      (hoff d hd) with h | ⟨n', hn', hM, h⟩
    · exact ⟨-1, c, h, fun _ _ => Unlogged.irrefl⟩
    obtain ⟨r, c₁, he, cnt, -, hcn, hr, hlog⟩ := writeiLoop_logs hE _ n' _ 0 c hw
      (Nat.zero_le _) (Nat.zero_le _) hM
    refine ⟨r, c₁, h.trans he, fun hrd x hx => ?_⟩
    rcases hlog c.fs x hx with hx | ⟨hlt, -⟩
    · exact Unlogged.irrefl hx
    · rcases hr with rfl | ⟨-, rfl⟩
      · rw [toInt32_of_lt (by omega)] at hrd
        omega
      · omega
  simp only [dirFlushEntry, FsM.bind_apply, FsM.get_apply, hd]
  rw [he]
  by_cases hr : r = E.geo.direntSize
  · left
    -- the size changes no buffer, and `iupdate` logs the block it writes
    have hup : ∀ c₂ : Ctx, c₂.fs = c₁.fs →
        ∃ c', iupdate E.geo true c₂ = .ok () c' ∧ ∀ x, ¬ Unlogged c.fs c'.fs x := fun c₂ hfs => by
      obtain ⟨c', h, -, hlog⟩ := iupdate_unlogged E.geo c₂
      exact ⟨c', h, fun x hx => hfull hr x (hfs ▸ hlog _ x hx)⟩
    simp only [hr, ne_eq, not_true_eq_false, if_false, FsM.bind_apply, FsM.pure_apply,
      FsM.get_apply]
    split_ifs
    · exact hup _ rfl
    · exact hup c₁ rfl
  · right
    simp [hr]

/-- The directory of `lastBlockCtx`, with every name at offset 8, the second record of its
block. -/
theorem dirFlushEntry_logs_second_record :
    let c : Ctx := { lastBlockCtx with
      ip := { lastBlockCtx.ip with type := .dir, dir := some fun _ => some ⟨5, 8⟩ } }
    smallEnv.Sane ∧ Wf smallEnv.geo c ∧ smallEnv.geo.direntSize < 2147483648 ∧
      (∀ d, c.ip.dir = some d → ((d (strbuf smallEnv.geo [97])).getD ⟨0, 0⟩).offset ≤
        smallEnv.geo.maxfile * smallEnv.geo.bsize) ∧
      ((∃ c', dirFlushEntry smallEnv [97] true c = .ok () c' ∧ ∀ x, ¬ Unlogged c.fs c'.fs x) ∨
        ∃ c', dirFlushEntry smallEnv [97] true c = .error (.panic "dir_flush_entry") c') := by
  intro c
  have hE : smallEnv.Sane := Env.firstFit_sane _ (by decide)
  have hw : Wf smallEnv.geo c := lastBlockCtx_wf.of_slots (fun _ _ => rfl) rfl
  have hoff : ∀ d, c.ip.dir = some d → ((d (strbuf smallEnv.geo [97])).getD ⟨0, 0⟩).offset ≤
      smallEnv.geo.maxfile * smallEnv.geo.bsize := fun d h => by
    cases h
    decide
  exact ⟨hE, hw, by decide, hoff, dirFlushEntry_logs hE hw [97] (by decide) hoff⟩

end Writei

end Sv6Fs
