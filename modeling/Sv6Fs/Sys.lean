import Sv6Fs.ReadWrite
import Sv6Fs.Itrunc

/-! # The whole file system

The inode cache of the root device, seen as one in-memory inode per inode number (every
`iget` finds its inode there), over the shared buffer cache, free-bit-vector and
transaction. A call on one inode runs its `FsM` on that inode and the shared state
(`onInode`); the directory code, which also changes the link count of the inode an entry
names, runs in `SysM`.

`slotVal`, `mapped` and `fileByte` read an inode's block tree, block map and contents the
way `bmap` and `readi` would, without allocating: a logical block with no disk block reads
as zeros.
-/

namespace Sv6Fs

/-- The inodes of the root device, by inode number, and the shared state. -/
structure Sys where
  inodes : Nat → Inode
  fs : Fs

/-- Inode `i` replaced by `ip`. -/
def Sys.setInode (s : Sys) (i : Nat) (ip : Inode) : Sys :=
  { s with inodes := Function.update s.inodes i ip }

@[simp] theorem Sys.setInode_inodes (s : Sys) (i : Nat) (ip : Inode) :
    (s.setInode i ip).inodes = Function.update s.inodes i ip := rfl
@[simp] theorem Sys.setInode_fs (s : Sys) (i : Nat) (ip : Inode) :
    (s.setInode i ip).fs = s.fs := rfl

/-- A call that may touch several inodes. -/
abbrev SysM := EStateM Fault Sys

namespace SysM

variable {α β : Type}

@[simp] theorem bind_apply (x : SysM α) (f : α → SysM β) (s : Sys) :
    (x >>= f) s = match x s with
      | .ok a s' => f a s'
      | .error e s' => .error e s' := by
  show EStateM.bind x f s = _
  cases h : x s <;> simp [EStateM.bind, h]

@[simp] theorem map_apply (f : α → β) (x : SysM α) (s : Sys) :
    (f <$> x) s = match x s with
      | .ok a s' => .ok (f a) s'
      | .error e s' => .error e s' := by
  show EStateM.map f x s = _
  cases h : x s <;> simp [EStateM.map, h]

@[simp] theorem pure_apply (a : α) (s : Sys) : (pure a : SysM α) s = .ok a s := rfl
@[simp] theorem get_apply (s : Sys) : (get : SysM Sys) s = .ok s s := rfl
@[simp] theorem set_apply (s s' : Sys) : (set s' : SysM PUnit) s = .ok ⟨⟩ s' := rfl
@[simp] theorem modify_apply (f : Sys → Sys) (s : Sys) :
    (modify f : SysM PUnit) s = .ok ⟨⟩ (f s) := rfl
@[simp] theorem throw_apply (e : Fault) (s : Sys) : (throw e : SysM α) s = .error e s := rfl

end SysM

/-- Run a call on inode `i`. -/
def onInode {α : Type} (i : Nat) (m : FsM α) : SysM α := fun s =>
  match m ⟨s.inodes i, s.fs⟩ with
  | .ok a c => .ok a ⟨Function.update s.inodes i c.ip, c.fs⟩
  | .error e c => .error e ⟨Function.update s.inodes i c.ip, c.fs⟩

namespace Sys

/-- The state a call on inode `i` runs in. -/
def ctx (s : Sys) (i : Nat) : Ctx := ⟨s.inodes i, s.fs⟩

/-- The state after a call on inode `i` that left `c`. -/
def put (s : Sys) (i : Nat) (c : Ctx) : Sys := ⟨Function.update s.inodes i c.ip, c.fs⟩

@[simp] theorem ctx_ip (s : Sys) (i : Nat) : (s.ctx i).ip = s.inodes i := rfl
@[simp] theorem ctx_fs (s : Sys) (i : Nat) : (s.ctx i).fs = s.fs := rfl
@[simp] theorem put_inodes (s : Sys) (i : Nat) (c : Ctx) :
    (s.put i c).inodes = Function.update s.inodes i c.ip := rfl
@[simp] theorem put_fs (s : Sys) (i : Nat) (c : Ctx) : (s.put i c).fs = c.fs := rfl
@[simp] theorem put_ctx (s : Sys) (i : Nat) (c : Ctx) : (s.put i c).ctx i = c := by
  simp [ctx]
@[simp] theorem put_self (s : Sys) (i : Nat) : s.put i (s.ctx i) = s := by
  simp [put, ctx]
@[simp] theorem put_put (s : Sys) (i : Nat) (c c' : Ctx) : (s.put i c).put i c' = s.put i c' := by
  simp [put]

end Sys

theorem onInode_of_ok {α : Type} {m : FsM α} {s : Sys} {i : Nat} {a : α} {c : Ctx}
    (h : m (s.ctx i) = .ok a c) : onInode i m s = .ok a (s.put i c) := by
  simp only [onInode]
  rw [show (⟨s.inodes i, s.fs⟩ : Ctx) = s.ctx i from rfl, h]
  rfl

theorem onInode_of_error {α : Type} {m : FsM α} {s : Sys} {i : Nat} {e : Fault} {c : Ctx}
    (h : m (s.ctx i) = .error e c) : onInode i m s = .error e (s.put i c) := by
  simp only [onInode]
  rw [show (⟨s.inodes i, s.fs⟩ : Ctx) = s.ctx i from rfl, h]
  rfl

theorem onInode_ok {α : Type} {m : FsM α} {s s' : Sys} {i : Nat} {a : α}
    (h : onInode i m s = .ok a s') : ∃ c, m (s.ctx i) = .ok a c ∧ s' = s.put i c := by
  unfold onInode at h
  split at h <;> simp only [EStateM.Result.ok.injEq, reduceCtorEq] at h
  obtain ⟨rfl, rfl⟩ := h
  exact ⟨_, ‹_›, rfl⟩

theorem onInode_error {α : Type} {m : FsM α} {s s' : Sys} {i : Nat} {e : Fault}
    (h : onInode i m s = .error e s') : ∃ c, m (s.ctx i) = .error e c ∧ s' = s.put i c := by
  unfold onInode at h
  split at h <;> simp only [EStateM.Result.error.injEq, reduceCtorEq] at h
  obtain ⟨rfl, rfl⟩ := h
  exact ⟨_, ‹_›, rfl⟩

namespace Inode

/-- `inode::link()`: a non-zero link count holds one reference. -/
def link (ip : Inode) : Inode :=
  let n := toShort (ip.nlink + 1)
  { ip with nlink := n, ref := if n = 1 then ip.ref + 1 else ip.ref }

/-- `inode::unlink()`: the reference of the link count goes when it reaches zero. -/
def unlink (ip : Inode) : Inode :=
  let n := toShort (ip.nlink - 1)
  { ip with nlink := n, ref := if n = 0 then ip.ref - 1 else ip.ref }

@[simp] theorem link_dir (ip : Inode) : ip.link.dir = ip.dir := rfl
@[simp] theorem link_dirOffset (ip : Inode) : ip.link.dirOffset = ip.dirOffset := rfl
@[simp] theorem link_addrs (ip : Inode) : ip.link.addrs = ip.addrs := rfl
@[simp] theorem link_size (ip : Inode) : ip.link.size = ip.size := rfl
@[simp] theorem unlink_dir (ip : Inode) : ip.unlink.dir = ip.dir := rfl
@[simp] theorem unlink_dirOffset (ip : Inode) : ip.unlink.dirOffset = ip.dirOffset := rfl
@[simp] theorem unlink_addrs (ip : Inode) : ip.unlink.addrs = ip.addrs := rfl
@[simp] theorem unlink_size (ip : Inode) : ip.unlink.size = ip.size := rfl

end Inode

/-! ## The block map and contents, read without allocating -/

/-- A place in an inode's block tree that holds a block number: a direct slot, the two tier
roots, an entry of the indirect block, an entry of the first-level doubly-indirect block,
or entry `j` of the second-level block that entry `k` names. -/
inductive Slot where
  | direct (k : Nat)
  | indRoot
  | dblRoot
  | ind (k : Nat)
  | dbl1 (k : Nat)
  | dbl2 (k j : Nat)
  deriving DecidableEq, Repr

/-- Entry `k` of block `b`, or 0 when `b` is absent. -/
def entryAt (data : Nat → Block) (b k : Nat) : Nat := if b = 0 then 0 else getWord (data b) k

section View

variable (G : Geometry)

/-- The slots an inode has. -/
def Slot.Valid : Slot → Prop
  | .direct k => k < G.ndirect
  | .indRoot | .dblRoot => True
  | .ind k | .dbl1 k => k < G.nindirect
  | .dbl2 k j => k < G.nindirect ∧ j < G.nindirect

/-- The block number in a slot, read through `data`; a slot under an absent block holds 0. -/
def slotVal (ip : Inode) (data : Nat → Block) : Slot → Nat
  | .direct k => ip.addrs k
  | .indRoot => ip.addrs G.ndirect
  | .dblRoot => ip.addrs (G.ndirect + 1)
  | .ind k => entryAt data (ip.addrs G.ndirect) k
  | .dbl1 k => entryAt data (ip.addrs (G.ndirect + 1)) k
  | .dbl2 k j => entryAt data (entryAt data (ip.addrs (G.ndirect + 1)) k) j

/-- The slot that holds logical block `bn`'s disk block, as `bmap` walks to it. -/
def dataSlot (bn : Nat) : Slot :=
  if bn < G.ndirect then .direct bn
  else if bn - G.ndirect < G.nindirect then .ind (bn - G.ndirect)
  else
    let q := bn - G.ndirect - G.nindirect
    .dbl2 (q / G.nindirect) (q % G.nindirect)

/-- The disk block of logical block `bn`, or 0 where `bmap` would allocate. -/
def mapped (ip : Inode) (data : Nat → Block) (bn : Nat) : Nat :=
  if bn < G.maxfile then slotVal G ip data (dataSlot G bn) else 0

/-- Byte `p` of an inode's contents: a byte of an unmapped block is 0. -/
def fileByte (ip : Inode) (data : Nat → Block) (p : Nat) : UInt8 :=
  let b := mapped G ip data (p / G.bsize)
  if b = 0 then 0 else data b (p % G.bsize)

theorem dataSlot_valid {bn : Nat} (h : bn < G.maxfile) : (dataSlot G bn).Valid G := by
  unfold dataSlot Geometry.maxfile at *
  split
  · exact ‹_›
  split
  · exact ‹_›
  have hn : 0 < G.nindirect := by
    rcases Nat.eq_zero_or_pos G.nindirect with h0 | h0
    · simp [h0] at h; omega
    · exact h0
  exact ⟨Nat.div_lt_of_lt_mul (by omega), Nat.mod_lt _ hn⟩

/-- The tree and the contents read only the inode's addresses. -/
theorem slotVal_of_addrs {ip ip' : Inode} (h : ip'.addrs = ip.addrs) (data : Nat → Block)
    (τ : Slot) : slotVal G ip' data τ = slotVal G ip data τ := by
  cases τ <;> simp [slotVal, h]

theorem fileByte_of_addrs {ip ip' : Inode} (h : ip'.addrs = ip.addrs) (data : Nat → Block) :
    fileByte G ip' data = fileByte G ip data := by
  funext p
  simp only [fileByte, mapped, slotVal_of_addrs G h]

end View

end Sv6Fs
