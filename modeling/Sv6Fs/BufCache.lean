import Mathlib.Logic.Function.Basic
import Sv6Fs.Layout

/-! # The buffer cache and transactions

`buf.hh` is not among the repository's files; the file-system code sees the buffer cache
through `buf::get`, the read and write guards, `writeback`, `dirty` and
`add_to_transaction`. `BufCache` keeps what those calls observe: the bytes of every block
as seen through the cache, whether the cached copy is dirty, and the disk. A block that is
not cached reads as its disk contents, so it is modelled as a clean cached copy.

`transaction_diskblock` and `transaction` are those of `scalefs.hh`. The free and
allocation intents that `balloc` and `bfree` record are declared in no file of the
repository; they are the two lists the spec describes.
-/

namespace Sv6Fs

/-- `transaction_diskblock`: a block number and a copy of the block's bytes. -/
structure DiskBlock where
  blocknum : Nat
  blockdata : Block

/-- `transaction`: the snapshots `add_block` appended, the inode numbers of
`log_new_file`, and the block numbers of `add_allocated_block` and `add_free_block`. -/
structure Transaction where
  blocks : List DiskBlock
  newFiles : List Nat
  allocatedBlocks : List Nat
  freeBlocks : List Nat

namespace Transaction

/-- `transaction(t)`: nothing logged yet. -/
def empty : Transaction := ⟨[], [], [], []⟩

/-- `add_block`: append a snapshot. -/
def addBlock (t : Transaction) (b : DiskBlock) : Transaction :=
  { t with blocks := t.blocks ++ [b] }

/-- `log_new_file`. -/
def logNewFile (t : Transaction) (inum : Nat) : Transaction :=
  { t with newFiles := t.newFiles ++ [inum] }

/-- Modelled from the spec: `add_allocated_block` (declared in no file of the repository)
records a block for the bitmap reconciliation after commit. -/
def addAllocatedBlock (t : Transaction) (b : Nat) : Transaction :=
  { t with allocatedBlocks := t.allocatedBlocks ++ [b] }

/-- Modelled from the spec: `add_free_block` (declared in no file of the repository)
records a freed block for the bitmap reconciliation after commit. -/
def addFreeBlock (t : Transaction) (b : Nat) : Transaction :=
  { t with freeBlocks := t.freeBlocks ++ [b] }

@[simp] theorem addBlock_blocks (t : Transaction) (b : DiskBlock) :
    (t.addBlock b).blocks = t.blocks ++ [b] := rfl
@[simp] theorem addBlock_freeBlocks (t : Transaction) (b : DiskBlock) :
    (t.addBlock b).freeBlocks = t.freeBlocks := rfl
@[simp] theorem addBlock_allocatedBlocks (t : Transaction) (b : DiskBlock) :
    (t.addBlock b).allocatedBlocks = t.allocatedBlocks := rfl
@[simp] theorem addFreeBlock_blocks (t : Transaction) (b : Nat) :
    (t.addFreeBlock b).blocks = t.blocks := rfl
@[simp] theorem addFreeBlock_freeBlocks (t : Transaction) (b : Nat) :
    (t.addFreeBlock b).freeBlocks = t.freeBlocks ++ [b] := rfl
@[simp] theorem addFreeBlock_allocatedBlocks (t : Transaction) (b : Nat) :
    (t.addFreeBlock b).allocatedBlocks = t.allocatedBlocks := rfl
@[simp] theorem addAllocatedBlock_blocks (t : Transaction) (b : Nat) :
    (t.addAllocatedBlock b).blocks = t.blocks := rfl
@[simp] theorem addAllocatedBlock_freeBlocks (t : Transaction) (b : Nat) :
    (t.addAllocatedBlock b).freeBlocks = t.freeBlocks := rfl
@[simp] theorem addAllocatedBlock_allocatedBlocks (t : Transaction) (b : Nat) :
    (t.addAllocatedBlock b).allocatedBlocks = t.allocatedBlocks ++ [b] := rfl

end Transaction

/-- The buffer cache over the root device, with the disk under it. -/
structure BufCache where
  data : Nat → Block
  dirty : Nat → Bool
  disk : Nat → Block

namespace BufCache

/-- A write under `bp->write()`: the block takes new bytes and its buffer is dirty. -/
def write (c : BufCache) (b : Nat) (blk : Block) : BufCache :=
  { c with data := Function.update c.data b blk, dirty := Function.update c.dirty b true }

/-- `bp->writeback()`: the cached bytes reach the disk and the buffer is clean. -/
def writeback (c : BufCache) (b : Nat) : BufCache :=
  { c with disk := Function.update c.disk b (c.data b), dirty := Function.update c.dirty b false }

/-- Modelled from the spec: `bp->add_to_transaction(trans)` (in `buf.hh`, not among the
repository's files) hands the transaction a snapshot of the block's current bytes. -/
def snapshot (c : BufCache) (b : Nat) : DiskBlock := ⟨b, c.data b⟩

@[simp] theorem snapshot_blocknum (c : BufCache) (b : Nat) : (c.snapshot b).blocknum = b := rfl
@[simp] theorem snapshot_blockdata (c : BufCache) (b : Nat) :
    (c.snapshot b).blockdata = c.data b := rfl

/-- A clean buffer holds what the disk holds. -/
def Coherent (c : BufCache) : Prop := ∀ b, c.dirty b = false → c.data b = c.disk b

@[simp] theorem write_data (c : BufCache) (b : Nat) (blk : Block) :
    (c.write b blk).data = Function.update c.data b blk := rfl
@[simp] theorem write_dirty (c : BufCache) (b : Nat) (blk : Block) :
    (c.write b blk).dirty = Function.update c.dirty b true := rfl
@[simp] theorem write_disk (c : BufCache) (b : Nat) (blk : Block) :
    (c.write b blk).disk = c.disk := rfl
@[simp] theorem writeback_data (c : BufCache) (b : Nat) : (c.writeback b).data = c.data := rfl
@[simp] theorem writeback_dirty (c : BufCache) (b : Nat) :
    (c.writeback b).dirty = Function.update c.dirty b false := rfl
@[simp] theorem writeback_disk (c : BufCache) (b : Nat) :
    (c.writeback b).disk = Function.update c.disk b (c.data b) := rfl

theorem Coherent.write {c : BufCache} (h : c.Coherent) (b : Nat) (blk : Block) :
    (c.write b blk).Coherent := by
  intro x hx
  by_cases hxb : x = b
  · subst hxb; simp at hx
  · simpa [hxb] using h x (by simpa [hxb] using hx)

theorem Coherent.writeback {c : BufCache} (h : c.Coherent) (b : Nat) :
    (c.writeback b).Coherent := by
  intro x hx
  by_cases hxb : x = b
  · subst hxb; simp
  · simpa [hxb] using h x (by simpa [hxb] using hx)

end BufCache

end Sv6Fs
