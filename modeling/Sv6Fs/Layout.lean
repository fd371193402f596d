import Mathlib.Tactic.NormNum

/-! # Layout constants and blocks

The file-system core reads and writes the disk a block of `BSIZE` bytes at a time, and
reads an indirect block as an array of `u32` block numbers. `fs.h`, which fixes `BSIZE`,
`NDIRECT` and `DIRSIZ`, is not among the repository's files, so the three constants are
the fields of a `Geometry` and every result of the development holds for each geometry.
The derived constants follow their usual definitions: `NINDIRECT = BSIZE / sizeof(u32)`,
`MAXFILE = NDIRECT + NINDIRECT + NINDIRECT^2` and a packed `dirent` of `4 + DIRSIZ` bytes.

A block is its bytes (`Block`); `getWord` and `setWord` are the little-endian `u32` view
that `bmap` and `itrunc` take of indirect blocks. The two views are one array, so a block
freed as an indirect block and reused for data (or the other way round) is modelled as
the code sees it.
-/

namespace Sv6Fs

/-- The constants of `fs.h`. A block holds at least one on-disk inode (`sizeof(struct
dinode)`, `16 + 4 * (NDIRECT + 2)` bytes), so `IPB = BSIZE / sizeof(struct dinode)` is
positive and `IBLOCK` and `BBLOCK`, which divide by it, are defined. -/
structure Geometry where
  bsize : Nat
  ndirect : Nat
  dirsiz : Nat
  dinode_le : 16 + 4 * (ndirect + 2) ≤ bsize

namespace Geometry

variable (G : Geometry)

theorem bsize_pos : 0 < G.bsize := by
  have := G.dinode_le
  omega

/-- Block numbers held by one indirect block. -/
def nindirect : Nat := G.bsize / 4

/-- Blocks one inode can map: direct, singly and doubly indirect. -/
def maxfile : Nat := G.ndirect + G.nindirect + G.nindirect * G.nindirect

/-- `sizeof(struct dirent)`: a `u32` inode number and `DIRSIZ` name bytes, packed. -/
def direntSize : Nat := 4 + G.dirsiz

theorem four_mul_nindirect_le : 4 * G.nindirect ≤ G.bsize := by
  unfold nindirect; omega

end Geometry

/-- `BLOCKROUNDUP(off)`: the number of blocks that hold the first `off` bytes. -/
def blockRoundup (bsize off : Nat) : Nat :=
  if off % bsize ≠ 0 then off / bsize + 1 else off / bsize

/-- `n` blocks hold the first `off` bytes exactly when `off ≤ n * bsize`. -/
theorem blockRoundup_le_iff {bsize off n : Nat} (hb : 0 < bsize) :
    blockRoundup bsize off ≤ n ↔ off ≤ n * bsize := by
  have hx := Nat.div_add_mod off bsize
  have hr := Nat.mod_lt off hb
  rw [Nat.mul_comm n, blockRoundup]
  split_ifs with h
  · constructor
    · intro hn
      have := Nat.mul_le_mul_left bsize hn
      rw [Nat.mul_succ] at this
      omega
    · intro hn
      exact Nat.lt_of_mul_lt_mul_left (a := bsize) (by omega)
  · constructor
    · intro hn
      have := Nat.mul_le_mul_left bsize hn
      omega
    · intro hn
      exact Nat.le_of_mul_le_mul_left (by omega) hb

/-- Growing `off` within its last block keeps the number of blocks. -/
theorem blockRoundup_max {bsize off x : Nat} (hb : 0 < bsize)
    (hx : x ≤ blockRoundup bsize off * bsize) :
    blockRoundup bsize (max off x) = blockRoundup bsize off := by
  have hoff := (blockRoundup_le_iff hb).1 (Nat.le_refl (blockRoundup bsize off))
  refine Nat.le_antisymm ((blockRoundup_le_iff hb).2 (max_le hoff hx)) ?_
  exact (blockRoundup_le_iff hb).2
    (le_trans (le_max_left off x) ((blockRoundup_le_iff hb).1 (Nat.le_refl _)))

/-! ## Blocks -/

/-- The bytes of a block, by position. -/
abbrev Block := Nat → UInt8

/-- A block of zero bytes, as `bzero` leaves it. -/
def zeroBlock : Block := fun _ => 0

theorem uint8_toNat_ofNat (n : Nat) : (UInt8.ofNat n).toNat = n % 256 :=
  BitVec.toNat_ofNat _ _

/-- Entry `i` of a block read as `u32 *`: bytes `4i .. 4i+3`, least significant first. -/
def getWord (b : Block) (i : Nat) : Nat :=
  (b (4 * i)).toNat + (b (4 * i + 1)).toNat * 256 + (b (4 * i + 2)).toNat * 65536 +
    (b (4 * i + 3)).toNat * 16777216

/-- The store `((u32 *) b)[i] = v`: the four bytes of entry `i` take `v mod 2^32`. -/
def setWord (b : Block) (i v : Nat) : Block := fun k =>
  if k / 4 = i then UInt8.ofNat (v / 256 ^ (k % 4)) else b k

@[simp] theorem getWord_setWord_self (b : Block) (i v : Nat) :
    getWord (setWord b i v) i = v % 4294967296 := by
  have h : ∀ r < 4, (4 * i + r) / 4 = i ∧ (4 * i + r) % 4 = r := fun r hr => by omega
  simp only [getWord, setWord, (h 1 (by omega)).1, (h 1 (by omega)).2, (h 2 (by omega)).1,
    (h 2 (by omega)).2, (h 3 (by omega)).1, (h 3 (by omega)).2, if_true, uint8_toNat_ofNat,
    show 4 * i / 4 = i by omega, show 4 * i % 4 = 0 by omega]
  norm_num
  omega

theorem getWord_setWord_ne (b : Block) {i j : Nat} (v : Nat) (h : i ≠ j) :
    getWord (setWord b i v) j = getWord b j := by
  have h' : ∀ r < 4, (4 * j + r) / 4 ≠ i := fun r hr => by omega
  simp only [getWord, setWord, h' 1 (by omega), h' 2 (by omega), h' 3 (by omega),
    show 4 * j / 4 ≠ i by omega, if_false]

theorem getWord_setWord (b : Block) (i j v : Nat) :
    getWord (setWord b i v) j = if i = j then v % 4294967296 else getWord b j := by
  split
  · subst_vars; exact getWord_setWord_self b _ v
  · exact getWord_setWord_ne b v ‹_›

@[simp] theorem getWord_zeroBlock (i : Nat) : getWord zeroBlock i = 0 := by
  simp [getWord, zeroBlock]

theorem getWord_lt (b : Block) (i : Nat) : getWord b i < 4294967296 := by
  have h0 := (b (4 * i)).toNat_lt_size
  have h1 := (b (4 * i + 1)).toNat_lt_size
  have h2 := (b (4 * i + 2)).toNat_lt_size
  have h3 := (b (4 * i + 3)).toNat_lt_size
  simp only [getWord, UInt8.size] at *
  omega

/-- Bytes outside entry `i` are not touched by `setWord`. -/
theorem setWord_apply_of_ne {b : Block} {i k : Nat} (v : Nat) (h : k / 4 ≠ i) :
    setWord b i v k = b k := if_neg h

/-! ## Machine integers -/

/-- A `u32` (or a `u32` sum that the code lets wrap) as C computes it. -/
def u32 (x : Nat) : Nat := x % 4294967296

/-- The `int` a `u32` count becomes when a function returns it. -/
def toInt32 (x : Nat) : Int :=
  if u32 x < 2147483648 then (u32 x : Int) else (u32 x : Int) - 4294967296

theorem toInt32_of_lt {x : Nat} (h : x < 2147483648) : toInt32 x = x := by
  have hx : u32 x = x := Nat.mod_eq_of_lt (by omega)
  rw [toInt32, hx, if_pos h]

/-- A `short` as C stores it: wrapped into `[-32768, 32768)`. -/
def toShort (x : Int) : Int := (x + 32768) % 65536 - 32768

/-- Inode types: `T_FREE` (0), `T_DIR`, `T_FILE`, `T_DEV`. -/
inductive IType where
  | free
  | dir
  | file
  | dev
  deriving DecidableEq, Repr

end Sv6Fs
