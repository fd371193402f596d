import Sv6Fs.Inode

/-! # `itrunc`

`itrunc(ip, offset, trans)` frees every block from logical block `BLOCKROUNDUP(offset)` on,
in the three stages of its `switch`, which fall through from the stage holding the first
block to free: the direct slots, the indirect block, the doubly-indirect tree. Each loop
stops at the first zero slot. A stage frees its tier root only when it started at the
tier's first entry, and logs a partly cleared block into the transaction. Frees are
delayed: the blocks stay in use in the free-bit-vector until the transaction commits.

`itrunc` is always given a transaction (`mfs_interface::truncate_file` passes its own), so
its `bfree`s record their blocks and its `add_to_transaction`s log.

* `itrunc_zero`: a truncation to 0 clears every top address, unless one is `Stranded`: a
  direct block behind a zero direct slot (the direct loop stops at the hole), or a
  doubly-indirect root with no indirect block (the indirect stage leaves the `switch`); then
  the closing assertion fails.
* `itrunc_leaves_cleared_block_unlogged`: for every geometry with at least two entries per
  indirect block, a truncation that starts inside a second-level doubly-indirect block
  clears entries of that block, keeps it in the tree, and logs only the first-level block:
  the stage logs a second-level block only when its entry 0 is zero, that is, only when it
  frees it.
-/

namespace Sv6Fs

section Itrunc

variable (G : Geometry)

/-- The direct stage: `for (i = start; i < NDIRECT; i++) { if (!ip->addrs[i]) break;
bfree(dev, ip->addrs[i], trans, true); ip->addrs[i] = 0; }`, with `n` iterations left. -/
def freeDirect : (n i : Nat) → FsM Unit
  | 0, _ => pure ()
  | n + 1, i => do
    if (← get).ip.addrs i = 0 then pure () else do
      bfree ((← get).ip.addrs i) true true
      modify fun c => { c with ip := c.ip.setAddr i 0 }
      freeDirect n (i + 1)

/-- The loop over the entries of an indirect block `b`: `for (i = start; i < NINDIRECT;
i++) { if (!ap[i]) break; bfree(dev, ap[i], trans, true); ap[i] = 0; }`, with `n`
iterations left. -/
def freeEntries (b : Nat) : (n i : Nat) → FsM Unit
  | 0, _ => pure ()
  | n + 1, i => do
    if (← get).entry b i = 0 then pure () else do
      bfree ((← get).entry b i) true true
      writeWord b i 0
      freeEntries b n (i + 1)

/-- The stage `INDIRECT_BLOCKS`; `false` when its `break` leaves the `switch`. -/
def truncIndirect (start : Nat) : FsM Bool := do
  if (← get).ip.addrs G.ndirect = 0 then return false
  let ind := (← get).ip.addrs G.ndirect
  freeEntries ind (G.nindirect - start) start
  if start ≠ 0 then logBlock ind
  if start = 0 then
    bfree ((← get).ip.addrs G.ndirect) true true
    modify fun c => { c with ip := c.ip.setAddr G.ndirect 0 }
  return true

/-- The outer loop of the stage `DBL_INDIRECT_BLOCKS` over the first-level block `b1`:
the second-level block of entry `i` loses its entries from `begin % NINDIRECT` on, is
logged when its entry 0 is zero afterwards, and is itself freed when the loop started at
its entry 0; `begin` is reset after the first iteration. -/
def freeDoubly (b1 : Nat) : (n i begin : Nat) → FsM Unit
  | 0, _, _ => pure ()
  | n + 1, i, begin => do
    if (← get).entry b1 i = 0 then pure () else do
      let b2 := (← get).entry b1 i
      freeEntries b2 (G.nindirect - begin % G.nindirect) (begin % G.nindirect)
      if (← get).entry b2 0 = 0 then logBlock b2
      if begin % G.nindirect = 0 then
        bfree ((← get).entry b1 i) true true
        writeWord b1 i 0
      freeDoubly b1 n (i + 1) 0

/-- The stage `DBL_INDIRECT_BLOCKS`. -/
def truncDoubly (start : Nat) : FsM Unit := do
  if (← get).ip.addrs (G.ndirect + 1) = 0 then return ()
  let b1 := (← get).ip.addrs (G.ndirect + 1)
  freeDoubly G b1 (G.nindirect - start / G.nindirect) (start / G.nindirect) start
  if start ≠ 0 then logBlock b1
  if start = 0 then
    bfree ((← get).ip.addrs (G.ndirect + 1)) true true
    modify fun c => { c with ip := c.ip.setAddr (G.ndirect + 1) 0 }

/-- The stages of `itrunc`'s `switch`. -/
inductive TruncStage where
  | directBlocks
  | indirectBlocks
  | dblIndirectBlocks
  deriving DecidableEq, Repr

/-- `start_stage` and `start_index` for the first block to free; past the doubly-indirect
range both keep their initial values. -/
def truncStart (bn : Nat) : TruncStage × Nat :=
  if bn < G.ndirect then (.directBlocks, bn)
  else if bn < G.ndirect + G.nindirect then (.indirectBlocks, bn - G.ndirect)
  else if bn < G.ndirect + G.nindirect + G.nindirect * G.nindirect then
    (.dblIndirectBlocks, bn - G.ndirect - G.nindirect)
  else (.directBlocks, 0)

/-- The `switch` with its fall-through and its `break`s. -/
def truncStages : TruncStage × Nat → FsM Unit
  | (.directBlocks, start) => do
    freeDirect (G.ndirect - start) start
    if ← truncIndirect G 0 then truncDoubly G 0
  | (.indirectBlocks, start) => do
    if ← truncIndirect G start then truncDoubly G 0
  | (.dblIndirectBlocks, start) => truncDoubly G start

/-- `itrunc(ip, offset, trans)`. The closing check `assert(ip->addrs[i] == 0)` for a
truncation to 0 is a panic when it fails. -/
def itrunc (offset : Nat) : FsM Unit := do
  if (← get).ip.size ≤ offset ∨ G.maxfile * G.bsize ≤ offset then return ()
  truncStages G (truncStart G (blockRoundup G.bsize offset))
  let ip := (← get).ip
  if offset = 0 ∧ ¬ (List.range (G.ndirect + 2)).all (fun i => ip.addrs i = 0) then
    throw (.panic "assertion failed: ip->addrs[i] == 0")
  modify fun c => { c with ip := { c.ip with size := offset } }

end Itrunc

/-! ## What a truncation logs -/

/-- `bfree(dev, x, trans, true)` with a transaction: `x` joins the transaction's delayed
frees and stays in use. -/
def Ctx.delayFree (c : Ctx) (x : Nat) : Ctx :=
  { c with fs := { c.fs with tx := c.fs.tx.addFreeBlock x } }

@[simp] theorem bfree_delayed (x : Nat) (c : Ctx) :
    bfree x true true c = .ok () (c.delayFree x) := rfl

@[simp] theorem Ctx.delayFree_ip (c : Ctx) (x : Nat) : (c.delayFree x).ip = c.ip := rfl
@[simp] theorem Ctx.delayFree_buf (c : Ctx) (x : Nat) : (c.delayFree x).fs.buf = c.fs.buf := rfl
@[simp] theorem Ctx.delayFree_free (c : Ctx) (x : Nat) :
    (c.delayFree x).fs.free = c.fs.free := rfl
@[simp] theorem Ctx.delayFree_tx (c : Ctx) (x : Nat) :
    (c.delayFree x).fs.tx = c.fs.tx.addFreeBlock x := rfl

section Loops

variable {G : Geometry} {c : Ctx}

/-- The direct stage stops at a zero address. -/
theorem freeDirect_stop {i : Nat} (h : c.ip.addrs i = 0) (n : Nat) : freeDirect n i c = .ok () c := by
  cases n <;> simp [freeDirect, h]

/-- A loop over entries stops at a zero entry. -/
theorem freeEntries_stop {b i : Nat} (h : c.entry b i = 0) (n : Nat) :
    freeEntries b n i c = .ok () c := by
  cases n <;> simp [freeEntries, h]

/-- One iteration of the loop over entries: free the entry's block, zero the entry. -/
theorem freeEntries_succ {b i : Nat} (h : c.entry b i ≠ 0) (n : Nat) :
    freeEntries b (n + 1) i c =
      freeEntries b n (i + 1) ((c.delayFree (c.entry b i)).writeBlock b
        (setWord (c.fs.buf.data b) i 0)) := by
  simp [freeEntries, h, writeWord]

theorem freeDoubly_stop {b1 i begin : Nat} (h : c.entry b1 i = 0) (n : Nat) :
    freeDoubly G b1 n i begin c = .ok () c := by
  cases n <;> simp [freeDoubly, h]

end Loops

/-! ## A truncation to 0 -/

/-- A top address of `ip` that `itrunc(ip, 0, trans)` leaves in place: a direct block behind
a zero direct slot, which the direct stage's loop never reaches, or a doubly-indirect root
with no indirect block, whose absence makes the indirect stage leave the `switch` before the
doubly-indirect stage runs. -/
def Inode.Stranded (G : Geometry) (ip : Inode) : Prop :=
  (∃ k < G.ndirect, ip.addrs k ≠ 0 ∧ ∃ j < k, ip.addrs j = 0) ∨
    (ip.addrs G.ndirect = 0 ∧ ip.addrs (G.ndirect + 1) ≠ 0)

instance (G : Geometry) (ip : Inode) : Decidable (ip.Stranded G) :=
  inferInstanceAs (Decidable (_ ∨ _))

/-- Setting a zero address to 0 changes nothing. -/
theorem Inode.setAddr_eq_self {ip : Inode} {k : Nat} (h : ip.addrs k = 0) : ip.setAddr k 0 = ip := by
  cases ip
  simp only [Inode.setAddr, Inode.mk.injEq, and_true, true_and]
  exact Function.update_eq_self_iff.2 h.symm

section Zero

variable {G : Geometry}

/-- The direct stage from slot `i`, with `n` iterations left, clears the slots it reaches
before a zero one: slot `k` is cleared when every slot from `i` to `k` is nonzero. -/
theorem freeDirect_clears (n : Nat) : ∀ (i : Nat) (c : Ctx), ∃ c', freeDirect n i c = .ok () c' ∧
    c'.ip.size = c.ip.size ∧ ∀ k, c'.ip.addrs k =
      if i ≤ k ∧ k < i + n ∧ ∀ j, i ≤ j → j ≤ k → c.ip.addrs j ≠ 0 then 0 else c.ip.addrs k := by
  induction n with
  | zero => exact fun i c => ⟨c, rfl, rfl, fun k => by rw [if_neg (by omega)]⟩
  | succ n ih =>
    intro i c
    by_cases h : c.ip.addrs i = 0
    · exact ⟨c, freeDirect_stop h _, rfl,
        fun k => (if_neg fun ⟨hik, _, hall⟩ => hall i le_rfl hik h).symm⟩
    obtain ⟨c', he, hsize, haddr⟩ := ih (i + 1) ⟨c.ip.setAddr i 0, (c.delayFree (c.ip.addrs i)).fs⟩
    refine ⟨c', by simpa [freeDirect, h] using he, hsize, fun k => ?_⟩
    rw [haddr k]
    simp only [Inode.setAddr_addrs]
    rcases lt_trichotomy k i with hk | rfl | hk
    · simp [Function.update_noteq hk.ne, show ¬ i ≤ k by omega, show ¬ i + 1 ≤ k by omega]
    · rw [if_neg (by omega), Function.update_same,
        if_pos ⟨le_rfl, by omega, fun j h1 h2 => by obtain rfl : j = k := (by omega); exact h⟩]
    · have e : ∀ j, i < j → Function.update c.ip.addrs i 0 j = c.ip.addrs j :=
        fun j hj => Function.update_noteq (Nat.ne_of_gt hj) _ _
      have hall : (∀ j, i + 1 ≤ j → j ≤ k → Function.update c.ip.addrs i 0 j ≠ 0) ↔
          ∀ j, i ≤ j → j ≤ k → c.ip.addrs j ≠ 0 :=
        ⟨fun H j hj hjk => (Nat.eq_or_lt_of_le hj).elim (fun e' => e' ▸ h)
          (fun hj => e j hj ▸ H j hj hjk), fun H j hj hjk => e j hj ▸ H j (by omega) hjk⟩
      rw [e k hk]
      by_cases hP : ∀ j, i ≤ j → j ≤ k → c.ip.addrs j ≠ 0
      · by_cases hkn : k < i + 1 + n
        · rw [if_pos ⟨by omega, hkn, hall.2 hP⟩, if_pos ⟨by omega, by omega, hP⟩]
        · rw [if_neg fun h' => hkn h'.2.1, if_neg fun h' => hkn (by have := h'.2.1; omega)]
      · rw [if_neg fun h' => hP (hall.1 h'.2.2), if_neg fun h' => hP h'.2.2]

/-- A loop over the entries of a block changes no field of the inode. -/
theorem freeEntries_ip {b : Nat} (n : Nat) :
    ∀ (i : Nat) (c : Ctx), ∃ c', freeEntries b n i c = .ok () c' ∧ c'.ip = c.ip := by
  induction n with
  | zero => exact fun _ c => ⟨c, rfl, rfl⟩
  | succ n ih =>
    intro i c
    by_cases h : c.entry b i = 0
    · exact ⟨c, freeEntries_stop h _, rfl⟩
    · obtain ⟨c', he, hip⟩ := ih (i + 1) _
      exact ⟨c', (freeEntries_succ h n).trans he, hip⟩

/-- The outer loop of the doubly-indirect stage changes no field of the inode. -/
theorem freeDoubly_ip (b1 n : Nat) :
    ∀ (i begin : Nat) (c : Ctx), ∃ c', freeDoubly G b1 n i begin c = .ok () c' ∧ c'.ip = c.ip := by
  induction n with
  | zero => exact fun _ _ c => ⟨c, rfl, rfl⟩
  | succ n ih =>
    intro i begin c
    by_cases h : c.entry b1 i = 0
    · exact ⟨c, freeDoubly_stop h _, rfl⟩
    obtain ⟨c₁, h₁, hip₁⟩ := freeEntries_ip (b := c.entry b1 i)
      (G.nindirect - begin % G.nindirect) (begin % G.nindirect) c
    have key : ∀ c₃ : Ctx, c₃.ip = c.ip →
        ∃ c', freeDoubly G b1 n (i + 1) 0 c₃ = .ok () c' ∧ c'.ip = c.ip := fun c₃ h₃ =>
      (ih (i + 1) 0 c₃).imp fun _ ⟨he, hip⟩ => ⟨he, hip.trans h₃⟩
    simp only [freeDoubly, FsM.bind_apply, FsM.get_apply, h, if_false, h₁]
    split_ifs <;> simp only [FsM.bind_apply, FsM.get_apply, logBlock, writeWord, bfree_delayed,
      FsM.modify_apply, FsM.pure_apply] <;> exact key _ (by simp [hip₁])

/-- The indirect stage from entry 0: it leaves the `switch` when there is no indirect block,
and otherwise frees the block and clears `ip->addrs[NDIRECT]`. -/
theorem truncIndirect_zero (c : Ctx) : ∃ c', truncIndirect G 0 c =
    .ok (c.ip.addrs G.ndirect != 0) c' ∧ c'.ip = c.ip.setAddr G.ndirect 0 := by
  by_cases h : c.ip.addrs G.ndirect = 0
  · exact ⟨c, by simp [truncIndirect, h], (Inode.setAddr_eq_self h).symm⟩
  obtain ⟨c₁, h₁, hip₁⟩ := freeEntries_ip (b := c.ip.addrs G.ndirect) G.nindirect 0 c
  refine ⟨{ c₁.delayFree (c₁.ip.addrs G.ndirect) with ip := c₁.ip.setAddr G.ndirect 0 }, ?_,
    by rw [hip₁]⟩
  simp [truncIndirect, h, h₁, hip₁]

/-- The doubly-indirect stage from entry 0 frees the tree's root and clears
`ip->addrs[NDIRECT + 1]`. -/
theorem truncDoubly_zero (c : Ctx) :
    ∃ c', truncDoubly G 0 c = .ok () c' ∧ c'.ip = c.ip.setAddr (G.ndirect + 1) 0 := by
  by_cases h : c.ip.addrs (G.ndirect + 1) = 0
  · exact ⟨c, by simp [truncDoubly, h], (Inode.setAddr_eq_self h).symm⟩
  obtain ⟨c₁, h₁, hip₁⟩ := freeDoubly_ip (G := G) (c.ip.addrs (G.ndirect + 1)) G.nindirect 0 0 c
  refine ⟨{ c₁.delayFree (c₁.ip.addrs (G.ndirect + 1)) with
    ip := c₁.ip.setAddr (G.ndirect + 1) 0 }, ?_, by rw [hip₁]⟩
  simp [truncDoubly, h, h₁, hip₁]

/-- From logical block 0, the stages run from the direct stage (or from the indirect stage,
when there are no direct slots, which then has nothing to free). -/
theorem truncStages_zero (hmax : 0 < G.maxfile) (c : Ctx) :
    truncStages G (truncStart G 0) c =
      (do freeDirect G.ndirect 0; if ← truncIndirect G 0 then truncDoubly G 0) c := by
  rcases Nat.eq_zero_or_pos G.ndirect with h0 | h0
  · have : 0 < G.nindirect := by
      unfold Geometry.maxfile at hmax
      rcases Nat.eq_zero_or_pos G.nindirect with h | h
      · simp [h0, h] at hmax
      · exact h
    simp [truncStart, truncStages, h0, this, freeDirect]
  · simp [truncStart, truncStages, h0]

/-- `itrunc(ip, 0, trans)` on an inode of nonzero size: when a top address is stranded, the
closing assertion fails and the kernel panics; otherwise every top address ends 0 and so
does the size. -/
theorem itrunc_zero {c : Ctx} (hsize : 0 < c.ip.size) (hmax : 0 < G.maxfile) :
    (c.ip.Stranded G →
      ∃ c', itrunc G 0 c = .error (.panic "assertion failed: ip->addrs[i] == 0") c') ∧
    (¬ c.ip.Stranded G → ∃ c', itrunc G 0 c = .ok () c' ∧ c'.ip.size = 0 ∧
      ∀ k < G.ndirect + 2, c'.ip.addrs k = 0) := by
  obtain ⟨c₁, h₁, -, ha₁⟩ := freeDirect_clears G.ndirect 0 c
  obtain ⟨c₂, h₂, hip₂⟩ := truncIndirect_zero (G := G) c₁
  have hnd : c₁.ip.addrs G.ndirect = c.ip.addrs G.ndirect := by rw [ha₁, if_neg (by omega)]
  have hnd1 : c₁.ip.addrs (G.ndirect + 1) = c.ip.addrs (G.ndirect + 1) := by
    rw [ha₁, if_neg (by omega)]
  -- the doubly-indirect stage runs when there was an indirect block
  obtain ⟨c₃, h₃, hip₃⟩ : ∃ c₃, (if c₁.ip.addrs G.ndirect != 0 then truncDoubly G 0
      else pure ()) c₂ = .ok () c₃ ∧ c₃.ip = if c.ip.addrs G.ndirect ≠ 0 then
        c₂.ip.setAddr (G.ndirect + 1) 0 else c₂.ip := by
    by_cases h : c.ip.addrs G.ndirect = 0
    · exact ⟨c₂, by simp [hnd, h], by simp [h]⟩
    · obtain ⟨c₃, h₃, hip₃⟩ := truncDoubly_zero (G := G) c₂
      exact ⟨c₃, by simp [hnd, h, h₃], by simp [h, hip₃]⟩
  have hrun : truncStages G (truncStart G (blockRoundup G.bsize 0)) c = .ok () c₃ := by
    have hb : blockRoundup G.bsize 0 = 0 := by simp [blockRoundup]
    rw [hb, truncStages_zero hmax]
    simp only [FsM.bind_apply, h₁, h₂]
    exact h₃
  -- the top addresses at the assertion
  have hc₃ : ∀ k, c₃.ip.addrs k = if k = G.ndirect ∨ (k = G.ndirect + 1 ∧
      c.ip.addrs G.ndirect ≠ 0) then 0 else c₁.ip.addrs k := fun k => by
    rw [hip₃]
    by_cases h : c.ip.addrs G.ndirect = 0 <;> by_cases hk : k = G.ndirect <;>
      by_cases hk1 : k = G.ndirect + 1 <;> simp [h, hk, hk1, hip₂, Function.update_apply]
  have hall : (∀ k < G.ndirect + 2, c₃.ip.addrs k = 0) ↔ ¬ c.ip.Stranded G := by
    constructor
    · rintro H (⟨k, hk, hak, j, hjk, haj⟩ | ⟨hn, hn1⟩)
      · have := H k (by omega)
        rw [hc₃, if_neg (by omega), ha₁, if_neg fun h => h.2.2 j (by omega) (by omega) haj] at this
        exact hak this
      · have := H (G.ndirect + 1) (by omega)
        rw [hc₃, if_neg (by omega), hnd1] at this
        exact hn1 this
    · intro hS k hk
      rw [hc₃]
      split_ifs with h
      · rfl
      rw [ha₁]
      split_ifs with h'
      · rfl
      by_contra hak
      rcases Nat.lt_or_ge k G.ndirect with hkd | hkd
      · push_neg at h'
        obtain ⟨j, -, hjk, haj⟩ := h' (Nat.zero_le k) (by omega)
        exact hS (.inl ⟨k, hkd, hak, j, lt_of_le_of_ne hjk (by rintro rfl; exact hak haj), haj⟩)
      · obtain rfl : k = G.ndirect + 1 := by omega
        exact hS (.inr ⟨by by_contra hn; exact h (.inr ⟨rfl, hn⟩), hak⟩)
  have hmf : ¬ (c.ip.size ≤ 0 ∨ G.maxfile * G.bsize ≤ 0) := by
    have := Nat.mul_pos hmax G.bsize_pos
    omega
  have hit : itrunc G 0 c = (if ¬ (List.range (G.ndirect + 2)).all (fun i => c₃.ip.addrs i = 0)
      then .error (.panic "assertion failed: ip->addrs[i] == 0") c₃
      else .ok () { c₃ with ip := { c₃.ip with size := 0 } }) := by
    simp only [itrunc, FsM.bind_apply, FsM.get_apply, hmf, if_false, FsM.pure_apply, hrun, true_and]
    split_ifs <;> rfl
  simp only [List.all_eq_true, List.mem_range, decide_eq_true_eq] at hit
  refine ⟨fun hS => ⟨c₃, by rw [hit, if_pos (mt hall.1 (not_not.2 hS))]⟩,
    fun hS => ⟨{ c₃ with ip := { c₃.ip with size := 0 } },
      by rw [hit, if_neg (not_not.2 (hall.2 hS))], rfl, hall.2 hS⟩⟩

end Zero

/-- A truncation to 0 of an inode whose only block of the tree's top is the indirect block
`r`, with a hole at entry 0: the direct stage finds nothing, the loop over `r` stops at once,
and `r` is freed (delayed) and unlinked, whatever its other entries hold. -/
theorem itrunc_zero_hole (G : Geometry) (hn : 2 ≤ G.nindirect) {c : Ctx} {r : Nat}
    (haddr : ∀ k, k ≠ G.ndirect → k < G.ndirect + 2 → c.ip.addrs k = 0)
    (hr : c.ip.addrs G.ndirect = r) (hr0 : r ≠ 0) (he : c.entry r 0 = 0)
    (hsize : 0 < c.ip.size) :
    itrunc G 0 c = .ok () { c.delayFree r with ip := { c.ip.setAddr G.ndirect 0 with size := 0 } } := by
  have hmax : 0 < G.maxfile * G.bsize :=
    Nat.mul_pos (by unfold Geometry.maxfile; omega) G.bsize_pos
  have hd : c.ip.addrs (G.ndirect + 1) = 0 := haddr _ (by omega) (by omega)
  -- both starting stages reach the indirect stage with nothing freed
  have hts : truncStages G (truncStart G 0) c =
      (do if ← truncIndirect G 0 then truncDoubly G 0) c := by
    rcases Nat.eq_zero_or_pos G.ndirect with h0 | h0
    · have : 0 < G.nindirect := by omega
      simp [truncStart, truncStages, h0, this]
    · simp [truncStart, truncStages, h0, freeDirect_stop (haddr 0 (by omega) (by omega))]
  have hall : ∀ x < G.ndirect + 2, Function.update c.ip.addrs G.ndirect 0 x = 0 := fun x hx => by
    by_cases h : x = G.ndirect
    · subst h; simp
    · simp [Function.update_noteq h, haddr x h hx]
  simp [itrunc, blockRoundup, hts, truncIndirect, hr, hr0, freeEntries_stop he, truncDoubly, hd,
    hsize.ne', hmax.ne']
  rw [if_neg (by push_neg; exact hall)]
  rfl

/-- A truncation to the start of logical block `NDIRECT + NINDIRECT + 1`, where the
inode's first second-level block `b2` holds two entries: `itrunc` frees entry 1 and zeroes
it in `b2`, which stays in the tree and in use, and the only block it logs is the
first-level block `b1`. -/
theorem itrunc_leaves_cleared_block_unlogged (G : Geometry) (hG : 2 ≤ G.nindirect) {c : Ctx}
    {b1 b2 : Nat} (hb1 : c.ip.addrs (G.ndirect + 1) = b1) (hb1z : b1 ≠ 0) (h12 : b1 ≠ b2)
    (he0 : c.entry b1 0 = b2) (hb2z : b2 ≠ 0) (he1 : c.entry b1 1 = 0)
    (hx : c.entry b2 0 ≠ 0) (hy : c.entry b2 1 ≠ 0) (h2 : c.entry b2 2 = 0)
    (hsize : (G.ndirect + G.nindirect + 1) * G.bsize < c.ip.size) :
    ∃ c', itrunc G ((G.ndirect + G.nindirect + 1) * G.bsize) c = .ok () c' ∧
      c'.entry b2 1 = 0 ∧ c'.entry b1 0 = b2 ∧ c'.ip.addrs (G.ndirect + 1) = b1 ∧
      c'.fs.free b2 = c.fs.free b2 ∧
      c'.fs.tx.blocks = c.fs.tx.blocks ++ [⟨b1, c'.fs.buf.data b1⟩] := by
  obtain ⟨k, hk⟩ : ∃ k, G.nindirect = k + 2 := ⟨G.nindirect - 2, by omega⟩
  have hsq : 2 * 2 ≤ G.nindirect * G.nindirect := Nat.mul_le_mul hG hG
  have hbr : blockRoundup G.bsize ((G.ndirect + G.nindirect + 1) * G.bsize) =
      G.ndirect + G.nindirect + 1 := by
    simp [blockRoundup, Nat.mul_mod_left, Nat.mul_div_cancel _ G.bsize_pos]
  have hts : truncStart G (G.ndirect + G.nindirect + 1) = (.dblIndirectBlocks, 1) := by
    simp only [truncStart]
    rw [if_neg (by omega), if_neg (by omega), if_pos (by omega)]
    congr 1
    omega
  -- the loop over `b2` clears entry 1 and stops at entry 2
  let c1 := (c.delayFree (c.entry b2 1)).writeBlock b2 (setWord (c.fs.buf.data b2) 1 0)
  have hc1 : ∀ i, c1.entry b2 i = if i = 1 then 0 else c.entry b2 i := fun i => by
    simp [c1, Ctx.entry, getWord_setWord, eq_comm]
  have hc1' : ∀ i, c1.entry b1 i = c.entry b1 i := fun i => by
    simp [c1, Ctx.entry, Function.update_apply, h12]
  have hfe : freeEntries b2 (k + 1) 1 c = .ok () c1 :=
    (freeEntries_succ hy k).trans (freeEntries_stop (by simp [hc1, h2]) k)
  -- `b2`'s entry 0 is not zero, so it is neither logged nor freed; the loop over `b1`
  -- stops at its entry 1
  have hfd : freeDoubly G b1 G.nindirect 0 1 c = .ok () c1 := by
    have h1 : 1 % G.nindirect = 1 := Nat.mod_eq_of_lt (by omega)
    have hn : G.nindirect - 1 = k + 1 := by omega
    rw [hk, freeDoubly]
    simp only [FsM.bind_apply, FsM.get_apply, he0, hb2z, if_false, ← hk, h1, hn, hfe, hc1, hx,
      Nat.one_ne_zero, FsM.pure_apply, zero_add, zero_ne_one]
    exact freeDoubly_stop (by rw [hc1', he1]) _
  have htd : truncDoubly G 1 c = .ok () (c1.logBlock b1) := by
    have h0 : 1 / G.nindirect = 0 := Nat.div_eq_of_lt (by omega)
    rw [truncDoubly]
    simp only [FsM.bind_apply, FsM.get_apply, hb1, hb1z, if_false, h0, Nat.sub_zero, hfd,
      ne_eq, Nat.one_ne_zero, not_false_eq_true, if_true, logBlock, FsM.modify_apply,
      FsM.pure_apply]
  have hmax : (G.ndirect + G.nindirect + 1) * G.bsize < G.maxfile * G.bsize :=
    Nat.mul_lt_mul_of_pos_right (by simp only [Geometry.maxfile]; omega) G.bsize_pos
  have hoff : (G.ndirect + G.nindirect + 1) * G.bsize ≠ 0 :=
    Nat.mul_ne_zero (by omega) G.bsize_pos.ne'
  refine ⟨{ c1.logBlock b1 with
      ip := { c1.ip with size := (G.ndirect + G.nindirect + 1) * G.bsize } },
    ?_, (hc1 1).trans (if_pos rfl), (hc1' 0).trans he0, hb1, rfl, by simp [c1]⟩
  simp only [itrunc, FsM.bind_apply, FsM.get_apply, not_le.2 hsize, not_le.2 hmax, or_self,
    if_false, hbr, hts, truncStages, htd, hoff, false_and, FsM.modify_apply, FsM.pure_apply,
    Ctx.logBlock_ip]

/-- 32-byte blocks, one direct slot: block 10 is the first-level block, block 11 the
second-level block with entries 20 and 21; the file is 400 bytes long. -/
theorem itrunc_unlogged_small :
    let G : Geometry := ⟨32, 1, 14, by decide⟩
    let c : Ctx := ⟨⟨1, .file, 0, 0, 1, 400, 0, fun k => if k = 2 then 10 else 0, none, 0, 1⟩,
      ⟨⟨fun b => if b = 10 then setWord zeroBlock 0 11
          else if b = 11 then setWord (setWord zeroBlock 0 20) 1 21 else zeroBlock,
        fun _ => false, fun _ => zeroBlock⟩, fun _ => true, Transaction.empty⟩⟩
    ∃ c', itrunc G ((G.ndirect + G.nindirect + 1) * G.bsize) c = .ok () c' ∧
      c'.entry 11 1 = 0 ∧ c'.entry 10 0 = 11 ∧ c'.ip.addrs (G.ndirect + 1) = 10 ∧
      c'.fs.free 11 = c.fs.free 11 ∧
      c'.fs.tx.blocks = c.fs.tx.blocks ++ [⟨10, c'.fs.buf.data 10⟩] :=
  itrunc_leaves_cleared_block_unlogged _ (by decide) rfl (by decide) (by decide) (by decide)
    (by decide) (by decide) (by decide) (by decide) (by decide) (by decide)

end Sv6Fs
