import Mathlib.Data.List.Sort
import Mathlib.Data.Nat.Log
import Sv6Fs.Inode

/-! # The on-disk bitmap

`balloc_free_on_disk(blocks, trans, alloc)` sorts the block numbers and walks them in
runs. A run starts at a block `bno`, takes the bitmap block `BBLOCK(bno)` through the cache
and goes on while the next block is at most `max_bno = bno | (BPB - 1)`; for each block it
sets (`alloc`) or clears the block's bit, and panics on a bit that is already so. At the end
of the run it adds the bitmap block to the transaction.

When `BPB` is a power of two, as it is for a `BSIZE` of 4096, `max_bno` is the last block
whose bit the run's bitmap block holds, so each run is the listed blocks of one bitmap
block.

* `testBit_putBit`: one update changes one bit, the block's.
* `updateGroup_ok`, `updateGroup_error`: a run panics exactly on a repeated block or a bit
  already as asked, and otherwise makes the updates one after another.
* `groupLoop_ok`, `groupLoop_error`: the same for the whole sorted list, each bitmap block
  added to the transaction once, after its run.
* `ballocFreeOnDisk_spec`: for every list and every bitmap, the panics, the bits and the
  transaction as the per-block updates give them.
* `ballocFreeOnDisk_misplaces`: the power of two is needed; for every `BPB` that is not one,
  a run reaches into the next bitmap block and sets a bit in the wrong block.
-/

namespace Sv6Fs

namespace Geometry

variable (G : Geometry)

/-- `BPB`: bitmap bits per block. -/
def bpb : Nat := G.bsize * 8

/-- Modelled from the spec (`fs.h` is not among the repository's files): `BBLOCK(b,
ninodes)`, the bitmap block that holds the bit of block `b`. The bitmap follows the inode
table, which starts at block 2. -/
def bblock (ninodes b : Nat) : Nat := b / G.bpb + ninodes / G.ipb + 3

theorem bpb_pos : 0 < G.bpb := Nat.mul_pos G.bsize_pos (by decide)

end Geometry

/-! ## One bit -/

/-- A byte with bit `j` set (`v`) or cleared: `x | m`, or `x & ~m` as a byte. -/
def setBitNat (x j : Nat) (v : Bool) : Nat :=
  if v then x ||| 2 ^ j else x &&& (255 - 2 ^ j)

theorem testBit_setBitNat {x j : Nat} (hx : x < 256) (hj : j < 8) (v : Bool) (i : Nat) :
    (setBitNat x j v).testBit i = if i = j then v else x.testBit i := by
  by_cases hi : i < 8
  · have hmask : (255 - 2 ^ j).testBit i = !decide (i = j) :=
      (by decide : ∀ j < 8, ∀ i < 8, (255 - 2 ^ j).testBit i = !decide (i = j)) j hj i hi
    cases v <;> by_cases hij : i = j
    · subst hij; simp [setBitNat, hmask]
    · simp [setBitNat, hmask, hij]
    · subst hij; simp [setBitNat, Nat.testBit_two_pow]
    · simp [setBitNat, Nat.testBit_two_pow, hij, Ne.symm hij]
  · have hlt : x < 2 ^ i := lt_of_lt_of_le hx (Nat.pow_le_pow_right (by decide) (by omega) :
      2 ^ 8 ≤ 2 ^ i)
    simp only [show i ≠ j by omega, if_false, Nat.testBit_lt_two_pow hlt]
    cases v
    · exact Nat.testBit_lt_two_pow (lt_of_le_of_lt Nat.and_le_left hlt)
    · simp [setBitNat, Nat.testBit_two_pow, Nat.testBit_lt_two_pow hlt, show j ≠ i by omega]

theorem setBitNat_lt {x : Nat} (hx : x < 256) {j : Nat} (hj : j < 8) (v : Bool) :
    setBitNat x j v < 256 := by
  unfold setBitNat
  split
  · exact Nat.or_lt_two_pow (n := 8) hx (lt_of_lt_of_le (Nat.pow_lt_pow_right (by decide) hj)
      (by decide))
  · exact lt_of_le_of_lt Nat.and_le_left hx

/-- `(byte & m) != 0` with `m = 1 << j` reads bit `j`. -/
theorem and_two_pow_ne_zero (x j : Nat) : x &&& 2 ^ j ≠ 0 ↔ x.testBit j = true := by
  constructor
  · intro h
    by_contra hb
    exact h (Nat.eq_of_testBit_eq fun i => by
      by_cases hij : j = i
      · subst hij; simpa using hb
      · simp [Nat.testBit_two_pow, hij])
  · intro h h0
    have := congrArg (fun y => y.testBit j) h0
    simp [h] at this

theorem and_two_pow_eq_zero (x j : Nat) : x &&& 2 ^ j = 0 ↔ x.testBit j = false := by
  rw [← Bool.not_eq_true, ← and_two_pow_ne_zero, not_not]

section Bits

variable (G : Geometry)

/-- The bit of block `bno` in bitmap block `bn` as the cache holds it: bit `bi % 8` of byte
`bi / 8`, where `bi = bno % BPB`. -/
def bitAt (data : Nat → Block) (bn bno : Nat) : Bool :=
  (data bn (bno % G.bpb / 8)).toNat.testBit (bno % G.bpb % 8)

/-- The bit of block `b` in its own bitmap block. -/
def bitOf (ninodes : Nat) (data : Nat → Block) (b : Nat) : Bool :=
  bitAt G data (G.bblock ninodes b) b

/-- Where the bit of block `b` sits: bitmap block, byte, bit. -/
def bitPos (ninodes b : Nat) : Nat × Nat × Nat :=
  (G.bblock ninodes b, b % G.bpb / 8, b % G.bpb % 8)

/-- The bit of block `bno` in bitmap block `bn` set to `v`, through the cache. -/
def Fs.putBit (fs : Fs) (bn bno : Nat) (v : Bool) : Fs :=
  { fs with buf := fs.buf.write bn (Function.update (fs.buf.data bn) (bno % G.bpb / 8)
      (UInt8.ofNat (setBitNat (fs.buf.data bn (bno % G.bpb / 8)).toNat (bno % G.bpb % 8) v))) }

@[simp] theorem Fs.putBit_tx (fs : Fs) (bn bno : Nat) (v : Bool) :
    (Fs.putBit G fs bn bno v).tx = fs.tx := rfl
@[simp] theorem Fs.putBit_free (fs : Fs) (bn bno : Nat) (v : Bool) :
    (Fs.putBit G fs bn bno v).free = fs.free := rfl
@[simp] theorem Fs.putBit_disk (fs : Fs) (bn bno : Nat) (v : Bool) :
    (Fs.putBit G fs bn bno v).buf.disk = fs.buf.disk := rfl

/-- One update changes one bit: bit `bno % BPB % 8` of byte `bno % BPB / 8` of block `bn`. -/
theorem testBit_putBit (fs : Fs) (bn bno : Nat) (v : Bool) (bn' i j : Nat) :
    ((Fs.putBit G fs bn bno v).buf.data bn' i).toNat.testBit j =
      if (bn', i, j) = (bn, bno % G.bpb / 8, bno % G.bpb % 8) then v
      else (fs.buf.data bn' i).toNat.testBit j := by
  simp only [Fs.putBit, BufCache.write_data, Prod.mk.injEq]
  by_cases hbn : bn' = bn
  · subst hbn
    by_cases hi : i = bno % G.bpb / 8
    · subst hi
      simp only [Function.update_same, uint8_toNat_ofNat, true_and]
      have hx : _ < 256 := (fs.buf.data bn' (bno % G.bpb / 8)).toNat_lt_size
      rw [Nat.mod_eq_of_lt (setBitNat_lt hx (Nat.mod_lt _ (by decide)) v),
        testBit_setBitNat hx (Nat.mod_lt _ (by decide))]
    · simp [hi]
  · simp [hbn]

theorem bitAt_putBit (fs : Fs) (bn bno : Nat) (v : Bool) (bn' x : Nat) :
    bitAt G (Fs.putBit G fs bn bno v).buf.data bn' x =
      if bn' = bn ∧ x % G.bpb = bno % G.bpb then v else bitAt G fs.buf.data bn' x := by
  have hpos := G.bpb_pos
  rw [bitAt, testBit_putBit]
  congr 1
  simp only [Prod.mk.injEq, eq_iff_iff]
  omega

end Bits

/-! ## `balloc_free_on_disk` -/

section Code

variable (G : Geometry) (ninodes : Nat) (alloc : Bool)

/-- One pass of the `do … while` loop: `bi = *bno % BPB`, `m = 1 << (bi % 8)`; a bit
already as asked is a panic, otherwise the bit is set or cleared in the cached bitmap
block `blocknum`. -/
def updateBit (blocknum bno : Nat) (fs : Fs) : Except Fault Fs :=
  let bi := bno % G.bpb
  let m := 2 ^ (bi % 8)
  let byte := (fs.buf.data blocknum (bi / 8)).toNat
  let put (v : Nat) : Fs := { fs with
    buf := fs.buf.write blocknum (Function.update (fs.buf.data blocknum) (bi / 8) (UInt8.ofNat v)) }
  if alloc then
    if byte &&& m ≠ 0 then
      .error (.panic ("balloc_free_on_disk: block " ++ toString bno ++ " already in use"))
    else .ok (put (byte ||| m))
  else
    if byte &&& m = 0 then
      .error (.panic ("balloc_free_on_disk: block " ++ toString bno ++ " already free"))
    else .ok (put (byte &&& (255 - m)))

/-- The `do … while` loop over the blocks of one run, in bitmap block `blocknum`. -/
def updateGroup (blocknum : Nat) : List Nat → Fs → Except Fault Fs
  | [], fs => .ok fs
  | bno :: rest, fs => (updateBit G alloc blocknum bno fs).bind (updateGroup blocknum rest)

/-- The outer loop over the sorted blocks: a run from `bno` takes the blocks up to
`max_bno = bno | (BPB - 1)`, and its bitmap block goes to the transaction after it. -/
def groupLoop : List Nat → Fs → Except Fault Fs
  | [], fs => .ok fs
  | bno :: rest, fs =>
    let blocknum := G.bblock ninodes bno
    let maxBno := bno ||| (G.bpb - 1)
    (updateGroup G alloc blocknum (bno :: rest.takeWhile (· ≤ maxBno)) fs).bind fun fs =>
      groupLoop (rest.dropWhile (· ≤ maxBno))
        { fs with tx := fs.tx.addBlock (fs.buf.snapshot blocknum) }
termination_by l => l.length
decreasing_by
  exact Nat.lt_succ_of_le (List.dropWhile_suffix _).length_le

/-- `balloc_free_on_disk(blocks, trans, alloc)`, with `trans` the open transaction. -/
def ballocFreeOnDisk (blocks : List Nat) (fs : Fs) : Except Fault Fs :=
  groupLoop G ninodes alloc (blocks.mergeSort) fs

end Code

/-! ## The per-block update -/

section PerBlock

variable (G : Geometry) (ninodes : Nat) (alloc : Bool)

/-- The reference update: the bit of each listed block set (`alloc`) or cleared, one block
after another, each in its own bitmap block. -/
def putBits (l : List Nat) (fs : Fs) : Fs :=
  l.foldl (fun fs b => Fs.putBit G fs (G.bblock ninodes b) b alloc) fs

variable {G ninodes alloc}

theorem bblock_inj {x b : Nat} (h : G.bblock ninodes x = G.bblock ninodes b)
    (hmod : x % G.bpb = b % G.bpb) : x = b := by
  have hdiv : x / G.bpb = b / G.bpb := by unfold Geometry.bblock at h; omega
  rw [← Nat.div_add_mod x G.bpb, ← Nat.div_add_mod b G.bpb, hdiv, hmod]

/-- The update of block `b`'s bit leaves the bit of every other block. -/
theorem bitOf_putBit (fs : Fs) (b : Nat) (v : Bool) (x : Nat) :
    bitOf G ninodes (Fs.putBit G fs (G.bblock ninodes b) b v).buf.data x =
      if x = b then v else bitOf G ninodes fs.buf.data x := by
  rw [bitOf, bitAt_putBit]
  by_cases hx : x = b
  · simp [hx]
  · rw [if_neg fun h => hx (bblock_inj h.1 h.2), if_neg hx, bitOf]

@[simp] theorem putBits_nil (fs : Fs) : putBits G ninodes alloc [] fs = fs := rfl

theorem putBits_cons (b : Nat) (l : List Nat) (fs : Fs) :
    putBits G ninodes alloc (b :: l) fs =
      putBits G ninodes alloc l (Fs.putBit G fs (G.bblock ninodes b) b alloc) := rfl

theorem putBits_append (l l' : List Nat) (fs : Fs) :
    putBits G ninodes alloc (l ++ l') fs = putBits G ninodes alloc l' (putBits G ninodes alloc l fs) :=
  List.foldl_append _ _ _ _

theorem bitOf_putBits : ∀ (l : List Nat) (fs : Fs) (x : Nat),
    bitOf G ninodes (putBits G ninodes alloc l fs).buf.data x =
      if x ∈ l then alloc else bitOf G ninodes fs.buf.data x
  | [], _, _ => rfl
  | b :: l, fs, x => by
    rw [putBits_cons, bitOf_putBits l, bitOf_putBit]
    by_cases hxl : x ∈ l
    · simp [hxl]
    · by_cases hx : x = b <;> simp [hx, hxl]

/-- The per-block update, bit by bit: the bit of each listed block is `alloc`, and every
other bit of every block is as it was. -/
theorem testBit_putBits : ∀ (l : List Nat) (fs : Fs) (bn i j : Nat),
    ((putBits G ninodes alloc l fs).buf.data bn i).toNat.testBit j =
      if ∃ b ∈ l, bitPos G ninodes b = (bn, i, j) then alloc
      else (fs.buf.data bn i).toNat.testBit j
  | [], _, _, _, _ => by simp
  | b :: l, fs, bn, i, j => by
    rw [putBits_cons, testBit_putBits l, testBit_putBit]
    simp only [List.exists_mem_cons_iff]
    by_cases hl : ∃ b ∈ l, bitPos G ninodes b = (bn, i, j)
    · rw [if_pos hl, if_pos (.inr hl)]
    · rw [if_neg hl]
      have hpos : (bn, i, j) = (G.bblock ninodes b, b % G.bpb / 8, b % G.bpb % 8) ↔
          bitPos G ninodes b = (bn, i, j) := eq_comm
      by_cases hb : bitPos G ninodes b = (bn, i, j)
      · rw [if_pos (hpos.2 hb), if_pos (.inl hb)]
      · rw [if_neg (mt hpos.1 hb), if_neg fun h => h.elim hb hl]

/-- A bitmap block none of whose blocks is listed is left as it was. -/
theorem putBits_data_of_ne {bn : Nat} : ∀ {l : List Nat} (fs : Fs),
    (∀ x ∈ l, G.bblock ninodes x ≠ bn) → (putBits G ninodes alloc l fs).buf.data bn = fs.buf.data bn
  | [], _, _ => rfl
  | b :: l, fs, h => by
    rw [putBits_cons, putBits_data_of_ne _ fun x hx => h x (.tail _ hx)]
    simp [Fs.putBit, Function.update_noteq (h b (.head _)).symm]

theorem putBits_setTx (t : Transaction) : ∀ (l : List Nat) (fs : Fs),
    putBits G ninodes alloc l { fs with tx := t } = { putBits G ninodes alloc l fs with tx := t }
  | [], _ => rfl
  | b :: l, fs => putBits_setTx t l (Fs.putBit G fs (G.bblock ninodes b) b alloc)

@[simp] theorem putBits_tx : ∀ (l : List Nat) (fs : Fs), (putBits G ninodes alloc l fs).tx = fs.tx
  | [], _ => rfl
  | b :: l, fs => putBits_tx l (Fs.putBit G fs (G.bblock ninodes b) b alloc)

@[simp] theorem putBits_free : ∀ (l : List Nat) (fs : Fs),
    (putBits G ninodes alloc l fs).free = fs.free
  | [], _ => rfl
  | b :: l, fs => putBits_free l (Fs.putBit G fs (G.bblock ninodes b) b alloc)

@[simp] theorem putBits_disk : ∀ (l : List Nat) (fs : Fs),
    (putBits G ninodes alloc l fs).buf.disk = fs.buf.disk
  | [], _ => rfl
  | b :: l, fs => putBits_disk l (Fs.putBit G fs (G.bblock ninodes b) b alloc)

end PerBlock

/-! ## A run -/

section Runs

variable {G : Geometry} {ninodes : Nat} {alloc : Bool}

/-- A bit that is not yet as asked is set or cleared. -/
theorem updateBit_of_ne {bn bno : Nat} {fs : Fs} (h : bitAt G fs.buf.data bn bno ≠ alloc) :
    updateBit G alloc bn bno fs = .ok (Fs.putBit G fs bn bno alloc) := by
  unfold bitAt at h
  unfold updateBit Fs.putBit setBitNat
  cases alloc <;> simp only [Bool.not_eq_false, ne_eq, Bool.not_eq_true] at h <;>
    simp [and_two_pow_eq_zero, h]

/-- A bit already as asked is a panic. -/
theorem updateBit_of_eq {bn bno : Nat} {fs : Fs} (h : bitAt G fs.buf.data bn bno = alloc) :
    ∃ e, updateBit G alloc bn bno fs = .error e := by
  unfold bitAt at h
  unfold updateBit
  subst h
  cases hb : (fs.buf.data bn (bno % G.bpb / 8)).toNat.testBit (bno % G.bpb % 8) <;>
    simp [and_two_pow_eq_zero, hb]

/-- A run of blocks of bitmap block `bn`, none repeated and none already as asked, makes
the per-block updates. -/
theorem updateGroup_ok {bn : Nat} : ∀ {g : List Nat} {fs : Fs},
    (∀ b ∈ g, G.bblock ninodes b = bn) → g.Nodup →
    (∀ b ∈ g, bitOf G ninodes fs.buf.data b ≠ alloc) →
    updateGroup G alloc bn g fs = .ok (putBits G ninodes alloc g fs)
  | [], _, _, _, _ => rfl
  | b :: g, fs, hbn, hnd, hbits => by
    obtain rfl : G.bblock ninodes b = bn := hbn b (.head _)
    obtain ⟨hbg, hnd'⟩ := List.nodup_cons.1 hnd
    rw [updateGroup, updateBit_of_ne (hbits b (.head _))]
    exact updateGroup_ok (fun x hx => hbn x (.tail _ hx)) hnd' fun x hx => by
      rw [bitOf_putBit, if_neg fun (h : x = b) => hbg (h ▸ hx)]
      exact hbits x (.tail _ hx)

/-- A run with a repeated block, or a block whose bit is already as asked, panics. -/
theorem updateGroup_error {bn : Nat} : ∀ {g : List Nat} {fs : Fs},
    (∀ b ∈ g, G.bblock ninodes b = bn) →
    ¬ (g.Nodup ∧ ∀ b ∈ g, bitOf G ninodes fs.buf.data b ≠ alloc) →
    ∃ e, updateGroup G alloc bn g fs = .error e
  | [], _, _, h => absurd ⟨List.nodup_nil, fun _ h => absurd h (List.not_mem_nil _)⟩ h
  | b :: g, fs, hbn, h => by
    obtain rfl : G.bblock ninodes b = bn := hbn b (.head _)
    by_cases hbit : bitOf G ninodes fs.buf.data b = alloc
    · obtain ⟨e, he⟩ := updateBit_of_eq hbit
      exact ⟨e, by rw [updateGroup, he]; rfl⟩
    · rw [updateGroup, updateBit_of_ne hbit]
      refine updateGroup_error (fun x hx => hbn x (.tail _ hx)) fun ⟨hnd, hbits⟩ => h ⟨?_, ?_⟩
      · exact List.nodup_cons.2 ⟨fun hbg => hbits b hbg (by rw [bitOf_putBit, if_pos rfl]), hnd⟩
      · intro x hx
        rcases List.mem_cons.1 hx with rfl | hx
        · exact hbit
        · have hx' := hbits x hx
          rw [bitOf_putBit] at hx'
          split_ifs at hx' with hxb
          · exact absurd rfl hx'
          · exact hx'

end Runs

/-! ## Runs are bitmap blocks -/

section Grouping

variable {G : Geometry} {ninodes : Nat}

theorem or_two_pow_sub_one (x k : Nat) :
    x ||| (2 ^ k - 1) = 2 ^ k * (x / 2 ^ k) + (2 ^ k - 1) := by
  apply Nat.eq_of_testBit_eq
  intro i
  rw [Nat.testBit_mul_pow_two_add _ (Nat.sub_lt (Nat.two_pow_pos k) Nat.one_pos), Nat.testBit_or,
    Nat.testBit_two_pow_sub_one]
  by_cases hi : i < k
  · simp [hi]
  · rw [if_neg hi, ← Nat.shiftRight_eq_div_pow, Nat.testBit_shiftRight, Nat.add_sub_cancel' (by omega)]
    simp [hi]

/-- With `BPB` a power of two, a block at or past `bno` is at most `bno | (BPB - 1)`
exactly when its bit is in `bno`'s bitmap block. -/
theorem le_maxBno_iff (hpow : ∃ k, G.bpb = 2 ^ k) {bno x : Nat} (hx : bno ≤ x) :
    x ≤ bno ||| (G.bpb - 1) ↔ G.bblock ninodes x = G.bblock ninodes bno := by
  obtain ⟨k, hk⟩ := hpow
  have hp := G.bpb_pos
  have hle : bno / G.bpb ≤ x / G.bpb := Nat.div_le_div_right hx
  have hlt : x / G.bpb < bno / G.bpb + 1 ↔ x < (bno / G.bpb + 1) * G.bpb :=
    Nat.div_lt_iff_lt_mul hp
  have hmask : bno ||| (G.bpb - 1) = G.bpb * (bno / G.bpb) + (G.bpb - 1) := by
    rw [hk]; exact or_two_pow_sub_one bno k
  rw [Nat.succ_mul, Nat.mul_comm] at hlt
  rw [hmask]
  unfold Geometry.bblock
  generalize bno / G.bpb = q at *
  generalize x / G.bpb = r at *
  generalize G.bpb * q = m at *
  omega

/-- In a sorted list, every block from the first one above `M` on is above `M`. -/
theorem lt_of_mem_dropWhile {M : Nat} : ∀ {l : List Nat}, l.Pairwise (· ≤ ·) →
    ∀ x ∈ l.dropWhile (· ≤ M), M < x
  | [], _, _, h => absurd h (List.not_mem_nil _)
  | a :: l, hs, x, hx => by
    by_cases ha : a ≤ M
    · rw [List.dropWhile_cons_of_pos (by simpa using ha)] at hx
      exact lt_of_mem_dropWhile (List.pairwise_cons.1 hs).2 x hx
    · rw [List.dropWhile_cons_of_neg (by simpa using ha)] at hx
      rcases List.mem_cons.1 hx with rfl | hx
      · omega
      · exact lt_of_lt_of_le (by omega) ((List.pairwise_cons.1 hs).1 x hx)

variable (ninodes) in
/-- A sorted list from `bno` splits into the run from `bno`, whose blocks share `bno`'s
bitmap block, and the rest, whose blocks do not. -/
theorem run_split (hpow : ∃ k, G.bpb = 2 ^ k) {bno : Nat} {rest : List Nat}
    (hs : (bno :: rest).Pairwise (· ≤ ·)) :
    (∀ x ∈ bno :: rest.takeWhile (· ≤ bno ||| (G.bpb - 1)),
        G.bblock ninodes x = G.bblock ninodes bno) ∧
      ∀ x ∈ rest.dropWhile (· ≤ bno ||| (G.bpb - 1)), G.bblock ninodes x ≠ G.bblock ninodes bno := by
  obtain ⟨hbno, hrest⟩ := List.pairwise_cons.1 hs
  refine ⟨fun x hx => ?_, fun x hx h => ?_⟩
  · rcases List.mem_cons.1 hx with rfl | hx
    · rfl
    · exact (le_maxBno_iff hpow (hbno x (List.takeWhile_subset _ hx))).1
        (by simpa using List.mem_takeWhile_imp hx)
  · have hMx := lt_of_mem_dropWhile hrest x hx
    have := (le_maxBno_iff hpow (hbno x ((List.dropWhile_suffix _).subset hx))).2 h
    omega

end Grouping

/-! ## The whole list -/

section Loop

variable {G : Geometry} {ninodes : Nat} {alloc : Bool}

theorem groupLoop_nil (fs : Fs) : groupLoop G ninodes alloc [] fs = .ok fs := by
  rw [groupLoop]

theorem groupLoop_cons (bno : Nat) (rest : List Nat) (fs : Fs) :
    groupLoop G ninodes alloc (bno :: rest) fs =
      (updateGroup G alloc (G.bblock ninodes bno)
          (bno :: rest.takeWhile (· ≤ bno ||| (G.bpb - 1))) fs).bind fun fs =>
        groupLoop G ninodes alloc (rest.dropWhile (· ≤ bno ||| (G.bpb - 1)))
          { fs with tx := fs.tx.addBlock (fs.buf.snapshot (G.bblock ninodes bno)) } := by
  rw [groupLoop]

/-- A sorted list with no repeated block and no bit already as asked: the loop makes the
per-block updates, and adds each bitmap block of a listed block to the transaction once,
with its bytes after all of its updates. -/
theorem groupLoop_ok (hpow : ∃ k, G.bpb = 2 ^ k) : ∀ (l : List Nat) (fs : Fs),
    l.Pairwise (· ≤ ·) → l.Nodup → (∀ b ∈ l, bitOf G ninodes fs.buf.data b ≠ alloc) →
    ∃ added : List Nat, groupLoop G ninodes alloc l fs = .ok { putBits G ninodes alloc l fs with
        tx.blocks := fs.tx.blocks ++ added.map (putBits G ninodes alloc l fs).buf.snapshot } ∧
      added.Nodup ∧ ∀ bn, bn ∈ added ↔ ∃ b ∈ l, G.bblock ninodes b = bn
  | [], fs, _, _, _ => ⟨[], by simp [groupLoop], List.nodup_nil, by simp⟩
  | bno :: rest, fs, hs, hnd, hbits => by
    obtain ⟨hg, hd⟩ := run_split ninodes hpow hs
    generalize hgdef : bno :: rest.takeWhile (· ≤ bno ||| (G.bpb - 1)) = g at hg
    generalize hddef : rest.dropWhile (· ≤ bno ||| (G.bpb - 1)) = d at hd
    have hl : bno :: rest = g ++ d := by
      rw [← hgdef, ← hddef, List.cons_append, List.takeWhile_append_dropWhile]
    have hlen : d.length < (bno :: rest).length := by
      rw [← hddef]; exact Nat.lt_succ_of_le (List.dropWhile_suffix _).length_le
    rw [hl] at hs hnd hbits
    obtain ⟨hndg, hndd, -⟩ := List.nodup_append.1 hnd
    set bn := G.bblock ninodes bno
    set fs₁ : Fs := { putBits G ninodes alloc g fs with
      tx := (putBits G ninodes alloc g fs).tx.addBlock ((putBits G ninodes alloc g fs).buf.snapshot bn) }
    have hnotg : ∀ x ∈ d, x ∉ g := fun x hx hxg => hd x hx (hg x hxg)
    obtain ⟨added, hrun, hnda, hmem⟩ := groupLoop_ok hpow d fs₁ (List.pairwise_append.1 hs).2.1
      hndd fun x hx => by
        show bitOf G ninodes (putBits G ninodes alloc g fs).buf.data x ≠ alloc
        rw [bitOf_putBits, if_neg (hnotg x hx)]
        exact hbits x (List.mem_append_right _ hx)
    have hfinal : putBits G ninodes alloc d fs₁ = { putBits G ninodes alloc (g ++ d) fs with
        tx := fs₁.tx } := by
      rw [putBits_setTx, putBits_append]
    have hbn : (putBits G ninodes alloc (g ++ d) fs).buf.data bn =
        (putBits G ninodes alloc g fs).buf.data bn := by
      rw [putBits_append, putBits_data_of_ne _ hd]
    refine ⟨bn :: added, ?_, List.nodup_cons.2 ⟨fun h => ?_, hnda⟩, fun bn' => ?_⟩
    · rw [groupLoop_cons, hgdef, hddef,
        updateGroup_ok hg hndg fun x hx => hbits x (List.mem_append_left _ hx)]
      show groupLoop G ninodes alloc d fs₁ = _
      rw [hrun, hfinal, hl]
      simp [fs₁, Transaction.addBlock, BufCache.snapshot, hbn]
    · obtain ⟨x, hx, hxbn⟩ := (hmem bn).1 h
      exact hd x hx hxbn
    · rw [List.mem_cons, hmem, hl]
      constructor
      · rintro (rfl | ⟨x, hx, hxbn⟩)
        · exact ⟨bno, List.mem_append_left _ (hgdef ▸ .head _), rfl⟩
        · exact ⟨x, List.mem_append_right _ hx, hxbn⟩
      · rintro ⟨x, hx, rfl⟩
        rcases List.mem_append.1 hx with hx | hx
        · exact .inl (hg x hx)
        · exact .inr ⟨x, hx, rfl⟩
termination_by l => l.length

/-- A sorted list with a repeated block, or a block whose bit is already as asked, panics. -/
theorem groupLoop_error (hpow : ∃ k, G.bpb = 2 ^ k) : ∀ (l : List Nat) (fs : Fs),
    l.Pairwise (· ≤ ·) → ¬ (l.Nodup ∧ ∀ b ∈ l, bitOf G ninodes fs.buf.data b ≠ alloc) →
    ∃ e, groupLoop G ninodes alloc l fs = .error e
  | [], _, _, h => absurd ⟨List.nodup_nil, fun _ h => absurd h (List.not_mem_nil _)⟩ h
  | bno :: rest, fs, hs, h => by
    obtain ⟨hg, hd⟩ := run_split ninodes hpow hs
    generalize hgdef : bno :: rest.takeWhile (· ≤ bno ||| (G.bpb - 1)) = g at hg
    generalize hddef : rest.dropWhile (· ≤ bno ||| (G.bpb - 1)) = d at hd
    have hl : bno :: rest = g ++ d := by
      rw [← hgdef, ← hddef, List.cons_append, List.takeWhile_append_dropWhile]
    have hlen : d.length < (bno :: rest).length := by
      rw [← hddef]; exact Nat.lt_succ_of_le (List.dropWhile_suffix _).length_le
    have hnotg : ∀ x ∈ d, x ∉ g := fun x hx hxg => hd x hx (hg x hxg)
    rw [groupLoop_cons, hgdef, hddef]
    by_cases hgood : g.Nodup ∧ ∀ b ∈ g, bitOf G ninodes fs.buf.data b ≠ alloc
    · rw [updateGroup_ok hg hgood.1 hgood.2]
      refine groupLoop_error hpow d _ (List.pairwise_append.1 (hl ▸ hs)).2.1
        fun ⟨hndd, hbitsd⟩ => h ?_
      rw [hl]
      refine ⟨List.nodup_append.2 ⟨hgood.1, hndd, fun x hxg hxd => hnotg x hxd hxg⟩,
        fun x hx => ?_⟩
      rcases List.mem_append.1 hx with hx | hx
      · exact hgood.2 x hx
      · have := hbitsd x hx
        rwa [bitOf_putBits, if_neg (hnotg x hx)] at this
    · obtain ⟨e, he⟩ := updateGroup_error hg hgood
      exact ⟨e, by rw [he]; rfl⟩
termination_by l => l.length

end Loop

/-! ## `balloc_free_on_disk` against the per-block update -/

variable {G : Geometry} {ninodes : Nat} {alloc : Bool}

/-- With `BPB` a power of two, for every list of blocks and every bitmap:
`balloc_free_on_disk` panics exactly when a block is listed twice or its bit is already as
asked; otherwise every listed block's bit is as asked and every other bit of every block as
it was, and each bitmap block holding a listed block is added to the transaction once, with
its bytes after all of its updates. -/
theorem ballocFreeOnDisk_spec (hpow : ∃ k, G.bpb = 2 ^ k) (blocks : List Nat) (fs : Fs) :
    ((∃ e, ballocFreeOnDisk G ninodes alloc blocks fs = .error e) ↔
        (¬ blocks.Nodup ∨ ∃ b ∈ blocks, bitOf G ninodes fs.buf.data b = alloc)) ∧
      ∀ fs', ballocFreeOnDisk G ninodes alloc blocks fs = .ok fs' →
        (∀ bn i j, (fs'.buf.data bn i).toNat.testBit j =
          if ∃ b ∈ blocks, bitPos G ninodes b = (bn, i, j) then alloc
          else (fs.buf.data bn i).toNat.testBit j) ∧
        fs'.buf.disk = fs.buf.disk ∧ fs'.free = fs.free ∧
        ∃ added : List Nat, fs'.tx = { fs.tx with blocks := fs.tx.blocks ++ added.map fs'.buf.snapshot } ∧
          added.Nodup ∧ ∀ bn, bn ∈ added ↔ ∃ b ∈ blocks, G.bblock ninodes b = bn := by
  have hperm := List.mergeSort_perm blocks (fun a b => decide (a ≤ b))
  have hsorted : (blocks.mergeSort).Pairwise (· ≤ ·) := List.sorted_mergeSort' blocks
  have hcond : (blocks.mergeSort.Nodup ∧ ∀ b ∈ blocks.mergeSort, bitOf G ninodes fs.buf.data b ≠ alloc) ↔
      ¬ (¬ blocks.Nodup ∨ ∃ b ∈ blocks, bitOf G ninodes fs.buf.data b = alloc) := by
    simp only [hperm.nodup_iff, hperm.mem_iff, not_or, not_exists, not_and, not_not]
  refine ⟨⟨fun ⟨e, he⟩ => ?_, fun h => groupLoop_error hpow _ fs hsorted (mt hcond.1 (not_not.2 h))⟩,
    fun fs' h => ?_⟩
  · by_contra hc
    obtain ⟨added, hok, -⟩ := groupLoop_ok hpow _ fs hsorted (hcond.2 hc).1 (hcond.2 hc).2
    rw [ballocFreeOnDisk, hok] at he
    cases he
  · have hc : ¬ (¬ blocks.Nodup ∨ ∃ b ∈ blocks, bitOf G ninodes fs.buf.data b = alloc) := fun hc => by
      obtain ⟨e, he⟩ := groupLoop_error hpow _ fs hsorted (mt hcond.1 (not_not.2 hc))
      rw [ballocFreeOnDisk, he] at h
      cases h
    obtain ⟨added, hok, hnd, hmem⟩ := groupLoop_ok hpow _ fs hsorted (hcond.2 hc).1 (hcond.2 hc).2
    rw [ballocFreeOnDisk, hok] at h
    cases h
    refine ⟨fun bn i j => ?_, putBits_disk _ _, putBits_free _ _, added, by simp, hnd,
      fun bn => by simp only [hmem, hperm.mem_iff]⟩
    rw [testBit_putBits]
    simp only [hperm.mem_iff]

/-- Blocks 257, 1 and 2 allocated on a clear bitmap with 32-byte blocks (`BPB` = 256): no
panic. -/
theorem ballocFreeOnDisk_spec_small :
    let G : Geometry := ⟨32, 1, 12, by decide⟩
    let fs : Fs := ⟨⟨fun _ => zeroBlock, fun _ => false, fun _ => zeroBlock⟩, fun _ => true,
      Transaction.empty⟩
    (∃ k, G.bpb = 2 ^ k) ∧ ¬ ∃ e, ballocFreeOnDisk G 8 true [257, 1, 2] fs = .error e :=
  ⟨⟨8, rfl⟩, fun h => ((ballocFreeOnDisk_spec (G := ⟨32, 1, 12, by decide⟩) ⟨8, rfl⟩
    [257, 1, 2] _).1.1 h).elim (by decide) (by decide)⟩

/-! ## When `BPB` is not a power of two -/

/-- The bit `2 ^ m` lies above every bit of `x` and `y` below it. -/
theorem or_two_pow_add {m x y : Nat} (hx : x < 2 ^ m) (hy : y < 2 ^ m) :
    x ||| (2 ^ m + y) = 2 ^ m + (x ||| y) := by
  have hxy := Nat.or_lt_two_pow hx hy
  apply Nat.eq_of_testBit_eq
  intro i
  rw [Nat.testBit_or]
  rcases Nat.lt_trichotomy i m with h | rfl | h
  · rw [Nat.testBit_two_pow_add_gt h, Nat.testBit_two_pow_add_gt h, Nat.testBit_or]
  · rw [Nat.testBit_two_pow_add_eq, Nat.testBit_two_pow_add_eq, Nat.testBit_lt_two_pow hx,
      Nat.testBit_lt_two_pow hy, Nat.testBit_lt_two_pow hxy]
    rfl
  · have hi : 2 * 2 ^ m ≤ 2 ^ i := by
      rw [← pow_succ']
      exact Nat.pow_le_pow_right (by decide) h
    rw [Nat.testBit_lt_two_pow (by omega : x < 2 ^ i),
      Nat.testBit_lt_two_pow (by omega : 2 ^ m + y < 2 ^ i),
      Nat.testBit_lt_two_pow (by omega : 2 ^ m + (x ||| y) < 2 ^ i)]
    rfl

/-- When `BPB` is not a power of two, the run of some block below `BPB` reaches past its
bitmap block: with `2 ^ m` the largest power of two below `BPB`, block `BPB - 2 ^ m`, whose
lowest set bit is clear in `BPB - 1`. -/
theorem exists_run_past (hpow : ¬ ∃ k, G.bpb = 2 ^ k) :
    ∃ b, 0 < b ∧ b < G.bpb ∧ G.bpb ≤ b ||| (G.bpb - 1) := by
  have hp := Nat.pow_log_le_self 2 G.bpb_pos.ne'
  have hp' := Nat.lt_pow_succ_log_self (by decide : 1 < 2) G.bpb
  have hne : 2 ^ Nat.log 2 G.bpb ≠ G.bpb := fun h => hpow ⟨_, h.symm⟩
  rw [Nat.pow_succ] at hp'
  refine ⟨G.bpb - 2 ^ Nat.log 2 G.bpb, by omega, by omega, ?_⟩
  have hsplit : G.bpb - 1 = 2 ^ Nat.log 2 G.bpb + (G.bpb - 2 ^ Nat.log 2 G.bpb - 1) := by omega
  rw [hsplit, or_two_pow_add (by omega) (by omega)]
  have := Nat.le_of_testBit (n := G.bpb - 2 ^ Nat.log 2 G.bpb)
    (m := (G.bpb - 2 ^ Nat.log 2 G.bpb) ||| (G.bpb - 2 ^ Nat.log 2 G.bpb - 1))
    fun i h => by rw [Nat.testBit_or, h, Bool.true_or]
  omega

/-- The power of two is needed: when `BPB` is not one, allocating on a clear bitmap a block
`b` below `BPB` whose run reaches past its bitmap block, and block `BPB`, succeeds, but sets
bit 0 of `b`'s bitmap block, which is block 0's bit, in place of `BPB`'s, which stays clear. -/
theorem ballocFreeOnDisk_misplaces (hpow : ¬ ∃ k, G.bpb = 2 ^ k) (ninodes : Nat) {fs : Fs}
    (hclear : ∀ bn, fs.buf.data bn = zeroBlock) :
    ∃ b < G.bpb, ∃ fs', ballocFreeOnDisk G ninodes true [b, G.bpb] fs = .ok fs' ∧
      bitOf G ninodes fs'.buf.data G.bpb = false ∧ bitOf G ninodes fs'.buf.data 0 = true := by
  obtain ⟨b, hb0, hb, hpast⟩ := exists_run_past hpow
  have hpos := G.bpb_pos
  have hclr : ∀ bn x, bitAt G fs.buf.data bn x = false := fun bn x => by
    simp [bitAt, hclear, zeroBlock]
  have hbb : G.bblock ninodes b = G.bblock ninodes 0 := by
    simp [Geometry.bblock, Nat.div_eq_of_lt hb]
  have hbp : G.bblock ninodes G.bpb ≠ G.bblock ninodes 0 := by
    simp [Geometry.bblock, Nat.div_self hpos]
  set bn := G.bblock ninodes b
  -- the run takes both blocks, into `b`'s bitmap block
  have hrun : updateGroup G true bn [b, G.bpb] fs =
      .ok (Fs.putBit G (Fs.putBit G fs bn b true) bn G.bpb true) := by
    have h₁ : bitAt G fs.buf.data bn b ≠ true := by
      rw [hclr]
      decide
    have h₂ : bitAt G (Fs.putBit G fs bn b true).buf.data bn G.bpb ≠ true := by
      rw [bitAt_putBit, if_neg (by rw [Nat.mod_self, Nat.mod_eq_of_lt hb]; omega), hclr]
      decide
    rw [updateGroup, updateBit_of_ne h₁]
    show (updateBit G true bn G.bpb (Fs.putBit G fs bn b true)).bind (updateGroup G true bn []) = _
    rw [updateBit_of_ne h₂]
    rfl
  have hsorted : List.Sorted (· ≤ ·) [b, G.bpb] :=
    List.sorted_cons.2 ⟨fun _ h => by simp at h; omega, List.sorted_singleton _⟩
  refine ⟨b, hb, { Fs.putBit G (Fs.putBit G fs bn b true) bn G.bpb true with
    tx := (Fs.putBit G (Fs.putBit G fs bn b true) bn G.bpb true).tx.addBlock
      ((Fs.putBit G (Fs.putBit G fs bn b true) bn G.bpb true).buf.snapshot bn) }, ?_, ?_, ?_⟩
  · rw [ballocFreeOnDisk, List.mergeSort_eq_self hsorted, groupLoop_cons]
    simp only [List.takeWhile, List.dropWhile, decide_eq_true hpast, hrun, groupLoop_nil]
    rfl
  · -- `BPB`'s bitmap block is not `b`'s
    have hne : ∀ y, ¬ (G.bblock ninodes G.bpb = bn ∧ G.bpb % G.bpb = y % G.bpb) :=
      fun _ h => hbp (h.1.trans hbb)
    rw [bitOf, bitAt_putBit, if_neg (hne _), bitAt_putBit, if_neg (hne _), hclr]
  · rw [bitOf, bitAt_putBit, if_pos ⟨hbb.symm, by rw [Nat.zero_mod, Nat.mod_self]⟩]

/-- With 36-byte blocks `BPB` is 288, not a power of two: block 32's run reaches block
`32 | 287 = 319`, so allocating blocks 32 and 288 on a clear bitmap sets block 0's bit in
place of block 288's. -/
theorem ballocFreeOnDisk_misplaces_288 :
    let G : Geometry := ⟨36, 1, 12, by decide⟩
    let fs : Fs := ⟨⟨fun _ => zeroBlock, fun _ => false, fun _ => zeroBlock⟩, fun _ => true,
      Transaction.empty⟩
    (¬ ∃ k, G.bpb = 2 ^ k) ∧ (∀ bn, fs.buf.data bn = zeroBlock) ∧
      ∃ b < G.bpb, ∃ fs', ballocFreeOnDisk G 0 true [b, G.bpb] fs = .ok fs' ∧
        bitOf G 0 fs'.buf.data G.bpb = false ∧ bitOf G 0 fs'.buf.data 0 = true := by
  intro G fs
  have hpow : ¬ ∃ k, G.bpb = 2 ^ k := by
    rintro ⟨k, hk⟩
    have hk' : 288 = 2 ^ k := hk
    have h9 : k < 9 := by
      by_contra h
      have := Nat.pow_le_pow_right (by decide : 0 < 2) (not_lt.1 h)
      omega
    exact (by decide : ∀ k < 9, 288 ≠ 2 ^ k) k h9 hk'
  exact ⟨hpow, fun _ => rfl, ballocFreeOnDisk_misplaces hpow 0 fun _ => rfl⟩

end Sv6Fs
