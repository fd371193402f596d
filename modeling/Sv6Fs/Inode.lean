import Sv6Fs.BufCache

/-! # Inodes, the block allocator and `bmap`

The state the block-map code of `fs.cc` works on: one in-memory inode (`Inode`), the
buffer cache, the in-memory free-bit-vector of `rootfs_interface`, and the transaction
passed to the call (`Fs`). A call runs in `FsM`, an exception-and-state monad whose
exceptions keep the state reached when they are thrown: `out_of_blocks` unwinds out of
`balloc` without undoing what the caller did before, exactly as the C++ exception does,
and a `panic` halts the kernel.

`rootfs_interface` (outside the repository's files) owns the free-bit-vector; its
`alloc_block` is the parameter `Env.allocBlock`, the block it hands out for a given
bit-vector. Every result about allocation states what it assumes of that choice.

A `trans` argument of the C++ code is a `Bool` here: whether a transaction was passed.
The transaction itself is the `tx` field of the state.
-/

namespace Sv6Fs

/-- What stays fixed while the file system runs: the layout, the superblock's `size`,
and the block `rootfs_interface->alloc_block()` returns for a free-bit-vector (`true`:
free). -/
structure Env where
  geo : Geometry
  size : Nat
  allocBlock : (Nat → Bool) → Nat

/-- `dir_entry_info`: the inode number and byte offset of a directory entry. A default
`dir_entry_info` (what a failed `lookup` leaves) has inode number 0. -/
structure DirEntryInfo where
  inum : Nat
  offset : Nat
  deriving DecidableEq, Repr

/-- `dir_entries`: the in-memory index of a directory, from the name key (`strbuf`) to the
entry. -/
abbrev DirIndex := List UInt8 → Option DirEntryInfo

/-- The fields of the in-memory `inode` that the file-system code reads and writes, for
an inode of the root device: its metadata, the directory index once `dir_init` has built
it, the offset of the next directory entry, and the reference count. -/
structure Inode where
  inum : Nat
  type : IType
  major : Int
  minor : Int
  nlink : Int
  size : Nat
  gen : Nat
  addrs : Nat → Nat
  dir : Option DirIndex
  dirOffset : Nat
  ref : Nat

/-- The state shared by all inodes: buffer cache, free-bit-vector, open transaction. -/
structure Fs where
  buf : BufCache
  free : Nat → Bool
  tx : Transaction

/-- The state of one call on one inode. -/
structure Ctx where
  ip : Inode
  fs : Fs

/-- What ends a call early: the `out_of_blocks` exception, or a kernel panic. -/
inductive Fault where
  | outOfBlocks
  | panic (msg : String)
  deriving DecidableEq, Repr

/-- A call on one inode. -/
abbrev FsM := EStateM Fault Ctx

namespace FsM

variable {α β : Type}

@[simp] theorem bind_apply (x : FsM α) (f : α → FsM β) (c : Ctx) :
    (x >>= f) c = match x c with
      | .ok a c' => f a c'
      | .error e c' => .error e c' := by
  show EStateM.bind x f c = _
  cases h : x c <;> simp [EStateM.bind, h]

@[simp] theorem map_apply (f : α → β) (x : FsM α) (c : Ctx) :
    (f <$> x) c = match x c with
      | .ok a c' => .ok (f a) c'
      | .error e c' => .error e c' := by
  show EStateM.map f x c = _
  cases h : x c <;> simp [EStateM.map, h]

@[simp] theorem pure_apply (a : α) (c : Ctx) : (pure a : FsM α) c = .ok a c := rfl
@[simp] theorem get_apply (c : Ctx) : (get : FsM Ctx) c = .ok c c := rfl
@[simp] theorem set_apply (c c' : Ctx) : (set c' : FsM PUnit) c = .ok ⟨⟩ c' := rfl
@[simp] theorem modify_apply (f : Ctx → Ctx) (c : Ctx) :
    (modify f : FsM PUnit) c = .ok ⟨⟩ (f c) := rfl
@[simp] theorem throw_apply (e : Fault) (c : Ctx) : (throw e : FsM α) c = .error e c := rfl

theorem bind_ok {x : FsM α} {f : α → FsM β} {c c' : Ctx} {b : β} (h : (x >>= f) c = .ok b c') :
    ∃ a c₁, x c = .ok a c₁ ∧ f a c₁ = .ok b c' := by
  rw [bind_apply] at h
  split at h
  · exact ⟨_, _, ‹_›, h⟩
  · cases h

theorem bind_error {x : FsM α} {f : α → FsM β} {c c' : Ctx} {e : Fault}
    (h : (x >>= f) c = .error e c') :
    x c = .error e c' ∨ ∃ a c₁, x c = .ok a c₁ ∧ f a c₁ = .error e c' := by
  rw [bind_apply] at h
  split at h
  · exact .inr ⟨_, _, ‹_›, h⟩
  · cases h; exact .inl ‹_›

end FsM

/-- `try { x } catch (out_of_blocks&) { ... }`: `none` when `x` ran out of blocks, in the
state it had reached; a panic goes on. -/
def catchOob {α : Type} (x : FsM α) : FsM (Option α) := fun c =>
  match x c with
  | .ok a c' => .ok (some a) c'
  | .error .outOfBlocks c' => .ok none c'
  | .error e c' => .error e c'

theorem catchOob_ok {α : Type} {x : FsM α} {c c' : Ctx} {a : Option α}
    (h : catchOob x c = .ok a c') :
    (∃ v, a = some v ∧ x c = .ok v c') ∨ (a = none ∧ x c = .error .outOfBlocks c') := by
  unfold catchOob at h
  split at h <;> cases h
  · exact .inl ⟨_, rfl, ‹_›⟩
  · exact .inr ⟨rfl, ‹_›⟩

theorem catchOob_error {α : Type} {x : FsM α} {c c' : Ctx} {e : Fault}
    (h : catchOob x c = .error e c') : e ≠ .outOfBlocks ∧ x c = .error e c' := by
  unfold catchOob at h
  split at h <;> cases h
  exact ⟨‹_›, ‹_›⟩

namespace Inode

/-- `ip->addrs[k] = v`. -/
def setAddr (ip : Inode) (k v : Nat) : Inode :=
  { ip with addrs := Function.update ip.addrs k v }

@[simp] theorem setAddr_addrs (ip : Inode) (k v : Nat) :
    (ip.setAddr k v).addrs = Function.update ip.addrs k v := rfl
@[simp] theorem setAddr_size (ip : Inode) (k v : Nat) : (ip.setAddr k v).size = ip.size := rfl
@[simp] theorem setAddr_type (ip : Inode) (k v : Nat) : (ip.setAddr k v).type = ip.type := rfl
@[simp] theorem setAddr_inum (ip : Inode) (k v : Nat) : (ip.setAddr k v).inum = ip.inum := rfl

end Inode

/-! ## State updates -/

namespace Ctx

/-- A write of `blk` to block `b` through the buffer cache. -/
def writeBlock (c : Ctx) (b : Nat) (blk : Block) : Ctx :=
  { c with fs := { c.fs with buf := c.fs.buf.write b blk } }

/-- `bp->add_to_transaction(trans)` for block `b`. -/
def logBlock (c : Ctx) (b : Nat) : Ctx :=
  { c with fs := { c.fs with tx := c.fs.tx.addBlock (c.fs.buf.snapshot b) } }

/-- Entry `i` of block `b`, read through the cache. -/
def entry (c : Ctx) (b i : Nat) : Nat := getWord (c.fs.buf.data b) i

@[simp] theorem writeBlock_ip (c : Ctx) (b : Nat) (blk : Block) :
    (c.writeBlock b blk).ip = c.ip := rfl
@[simp] theorem writeBlock_data (c : Ctx) (b : Nat) (blk : Block) :
    (c.writeBlock b blk).fs.buf.data = Function.update c.fs.buf.data b blk := rfl
@[simp] theorem writeBlock_free (c : Ctx) (b : Nat) (blk : Block) :
    (c.writeBlock b blk).fs.free = c.fs.free := rfl
@[simp] theorem writeBlock_tx (c : Ctx) (b : Nat) (blk : Block) :
    (c.writeBlock b blk).fs.tx = c.fs.tx := rfl
@[simp] theorem logBlock_ip (c : Ctx) (b : Nat) : (c.logBlock b).ip = c.ip := rfl
@[simp] theorem logBlock_buf (c : Ctx) (b : Nat) : (c.logBlock b).fs.buf = c.fs.buf := rfl
@[simp] theorem logBlock_free (c : Ctx) (b : Nat) : (c.logBlock b).fs.free = c.fs.free := rfl
@[simp] theorem logBlock_tx (c : Ctx) (b : Nat) :
    (c.logBlock b).fs.tx = c.fs.tx.addBlock ⟨b, c.fs.buf.data b⟩ := rfl

end Ctx

section Alloc

variable (E : Env)

/-- `bzero(dev, bno)`: the cached copy of the block becomes zeros. -/
def bzero (bno : Nat) : FsM Unit :=
  modify fun c => c.writeBlock bno zeroBlock

/-- `balloc(dev, trans, zero_on_alloc)`: take the block `alloc_block` hands out, which
leaves the free-bit-vector with that block in use; a block number past the superblock's
`size` is the allocator's way of saying it has none left. -/
def balloc (trans zeroOnAlloc : Bool) : FsM Nat := do
  let c ← get
  let b := E.allocBlock c.fs.free
  if b < E.size then
    set { c with fs := { c.fs with
      free := Function.update c.fs.free b false,
      tx := if trans then c.fs.tx.addAllocatedBlock b else c.fs.tx } }
    if zeroOnAlloc then bzero b
    pure b
  else
    throw .outOfBlocks

/-- `bfree(dev, x, trans, delayed_free)`: a delayed free leaves the block in use in the
free-bit-vector until the transaction commits. -/
def bfree (x : Nat) (trans delayed : Bool) : FsM Unit :=
  modify fun c => { c with fs := { c.fs with
    free := if delayed then c.fs.free else Function.update c.fs.free x true,
    tx := if trans then c.fs.tx.addFreeBlock x else c.fs.tx } }

/-- `ap[i] = v` on the entries of block `b`. -/
def writeWord (b i v : Nat) : FsM Unit :=
  modify fun c => c.writeBlock b (setWord (c.fs.buf.data b) i v)

/-- `bp->add_to_transaction(trans)`. -/
def logBlock (b : Nat) : FsM Unit :=
  modify fun c => c.logBlock b

/-- `if (ip->addrs[k] == 0) ip->addrs[k] = balloc(dev, trans, zero);` and the slot's value
afterwards. -/
def ensureAddr (k : Nat) (trans zero : Bool) : FsM Nat := do
  if (← get).ip.addrs k = 0 then
    let b ← balloc E trans zero
    modify fun c => { c with ip := c.ip.setAddr k b }
  return (← get).ip.addrs k

/-- `if (ap[i] == 0) { ap[i] = balloc(dev, trans, zero); if (trans)
bp->add_to_transaction(trans); }` on the entries of block `b`, and the entry afterwards. -/
def ensureEntry (b i : Nat) (trans zero : Bool) : FsM Nat := do
  if (← get).entry b i = 0 then
    let v ← balloc E trans zero
    writeWord b i v
    if trans then logBlock b
  return (← get).entry b i

/-- `bmap(ip, bn, trans, zero_on_alloc)`: the disk block of logical block `bn`, allocating
the missing tiers on the way. Indirect blocks are always zeroed when allocated; the data
block is zeroed when `zero_on_alloc`. -/
def bmap (bn : Nat) (trans zeroOnAlloc : Bool) : FsM Nat :=
  let G := E.geo
  if bn < G.ndirect then
    ensureAddr E bn trans zeroOnAlloc
  else if bn - G.ndirect < G.nindirect then do
    let ind ← ensureAddr E G.ndirect trans true
    ensureEntry E ind (bn - G.ndirect) trans zeroOnAlloc
  else if G.nindirect * G.nindirect ≤ bn - G.ndirect - G.nindirect then
    throw (.panic "bmap: out of range")
  else do
    let q := bn - G.ndirect - G.nindirect
    let d1 ← ensureAddr E (G.ndirect + 1) trans true
    let d2 ← ensureEntry E d1 (q / G.nindirect) trans true
    ensureEntry E d2 (q % G.nindirect) trans zeroOnAlloc

end Alloc

/-! ## `iupdate` -/

/-- Modelled from the spec: `sizeof(struct dinode)` (`fs.h` is not among the repository's
files), the four `short`s `type, major, minor, nlink`, the `u32`s `size` and `gen`, and
`NDIRECT + 2` `u32` addresses, packed. -/
def Geometry.dinodeSize (G : Geometry) : Nat := 16 + 4 * (G.ndirect + 2)

/-- `IPB`: inodes per block. -/
def Geometry.ipb (G : Geometry) : Nat := G.bsize / G.dinodeSize

theorem Geometry.ipb_pos (G : Geometry) : 0 < G.ipb :=
  Nat.div_pos G.dinode_le (by unfold dinodeSize; omega)

/-- `IBLOCK(inum)`: the block of the inode table that holds inode `inum`. -/
def Geometry.iblock (G : Geometry) (inum : Nat) : Nat := inum / G.ipb + 2

/-- The bytes `pos .. pos + width - 1` of `b` take `v`, least significant first. -/
def putLE (b : Block) (pos width v : Nat) : Block := fun k =>
  if pos ≤ k ∧ k < pos + width then UInt8.ofNat (v / 256 ^ (k - pos)) else b k

/-- Modelled from the spec: the on-disk code of an inode type, in the order the spec lists
them (`T_FREE` is 0). -/
def IType.code : IType → Nat
  | .free => 0
  | .dir => 1
  | .file => 2
  | .dev => 3

/-- The stores of `iupdate` into the inode's `dinode` slot of block `blk`. -/
def putDinode (G : Geometry) (blk : Block) (ip : Inode) : Block :=
  let base := ip.inum % G.ipb * G.dinodeSize
  let short (x : Int) : Nat := (x % 65536).toNat
  let blk := putLE blk base 2 ip.type.code
  let blk := putLE blk (base + 2) 2 (short ip.major)
  let blk := putLE blk (base + 4) 2 (short ip.minor)
  let blk := putLE blk (base + 6) 2 (short ip.nlink)
  let blk := putLE blk (base + 8) 4 ip.size
  let blk := putLE blk (base + 12) 4 ip.gen
  (List.range (G.ndirect + 2)).foldl (fun b k => putLE b (base + 16 + 4 * k) 4 (ip.addrs k)) blk

/-- `iupdate(ip, trans)`: copy the inode's metadata into its slot of the inode table
through the cache, and log that block. -/
def iupdate (G : Geometry) (trans : Bool) : FsM Unit := do
  let c ← get
  let b := G.iblock c.ip.inum
  set (c.writeBlock b (putDinode G (c.fs.buf.data b) c.ip))
  if trans then logBlock b

end Sv6Fs
