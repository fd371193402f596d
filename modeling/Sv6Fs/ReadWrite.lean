import Sv6Fs.Inode

/-! # `readi`, `writei` and `update_size`

Both loops cut the byte range `[off, off + n)` at block boundaries: a chunk runs from `off`
to the end of its block or of the range, `m = min(n - tot, BSIZE - off % BSIZE)`. `writei`
maps each chunk's block with `bmap`, zeroing a newly allocated block unless the chunk
covers all of it, and catches `out_of_blocks` to return the bytes written so far (`-1`
when none). `readi` maps with allocation enabled and no transaction, and turns
`out_of_blocks` into a panic. Neither changes the inode's size: the caller calls
`update_size` once at the end.

The source and destination buffers are functions from the offset inside the buffer to
the byte there.
-/

namespace Sv6Fs

/-- `memmove(data + pos, src, m)` into a block. -/
def copyIn (blk : Block) (pos m : Nat) (src : Nat → UInt8) : Block := fun k =>
  if pos ≤ k ∧ k < pos + m then src (k - pos) else blk k

/-- `memmove(dst + tot, data + pos, m)` out of a block. -/
def copyOut (dst : Nat → UInt8) (tot : Nat) (blk : Block) (pos m : Nat) : Nat → UInt8 :=
  fun k => if tot ≤ k ∧ k < tot + m then blk (pos + (k - tot)) else dst k

/-- `bp->writeback_async()`: the write is taken to complete at once. -/
def writebackAsync (b : Nat) : FsM Unit :=
  modify fun c => { c with fs := { c.fs with buf := c.fs.buf.writeback b } }

section ReadWrite

variable (E : Env)

theorem chunk_pos (G : Geometry) (off : Nat) {n tot : Nat} (h : tot < n) :
    0 < min (n - tot) (G.bsize - off % G.bsize) := by
  have := Nat.mod_lt off G.bsize_pos
  omega

/-- The loop of `writei` from byte `tot` of the request on, at file offset `off`. -/
def writeiLoop (src : Nat → UInt8) (trans writeback : Bool) (n off tot : Nat) : FsM Int :=
  if h : tot < n then do
    let m := min (n - tot) (E.geo.bsize - off % E.geo.bsize)
    let skipDiskRead := decide (off % E.geo.bsize = 0 ∧ m = E.geo.bsize)
    match ← catchOob (bmap E (off / E.geo.bsize) trans !skipDiskRead) with
    | none => pure (if tot = 0 then -1 else toInt32 tot)
    | some blocknum => do
      modify fun c => c.writeBlock blocknum
        (copyIn (c.fs.buf.data blocknum) (off % E.geo.bsize) m (fun k => src (tot + k)))
      if !writeback && trans then logBlock blocknum
      if writeback then writebackAsync blocknum
      writeiLoop src trans writeback n (off + m) (tot + m)
  else pure (toInt32 tot)
termination_by n - tot
decreasing_by have := chunk_pos E.geo off h; omega

/-- `writei(ip, src, off, n, trans, writeback)`. -/
def writei (src : Nat → UInt8) (off n : Nat) (trans writeback : Bool) : FsM Int := do
  let G := E.geo
  if (← get).ip.type = .dev then return -1
  if u32 (off + n) < off then return -1
  let n := if G.maxfile * G.bsize < off + n then u32 (G.maxfile * G.bsize + 4294967296 - off)
    else n
  writeiLoop E src trans writeback n off 0

/-- The loop of `readi` from byte `tot` of the request on, at file offset `off`. -/
def readiLoop (n : Nat) (dst : Nat → UInt8) (off tot : Nat) : FsM (Nat → UInt8) :=
  if h : tot < n then do
    match ← catchOob (bmap E (off / E.geo.bsize) false true) with
    | none => throw (.panic "readi: out of blocks")
    | some b => do
      let m := min (n - tot) (E.geo.bsize - off % E.geo.bsize)
      let data := (← get).fs.buf.data b
      readiLoop n (copyOut dst tot data (off % E.geo.bsize) m) (off + m) (tot + m)
  else pure dst
termination_by n - tot
decreasing_by have := chunk_pos E.geo off h; omega

/-- `readi(ip, dst, off, n)`: the count it returns and the destination buffer. -/
def readi (dst : Nat → UInt8) (off n : Nat) : FsM (Int × (Nat → UInt8)) := do
  let ip := (← get).ip
  if ip.type = .dev then return (-1, dst)
  if ip.size < off ∨ u32 (off + n) < off then return (-1, dst)
  let n := if ip.size < off + n then ip.size - off else n
  let dst ← readiLoop E n dst off 0
  return (toInt32 n, dst)

/-- `update_size(ip, size, trans)`. -/
def updateSize (size : Nat) (trans : Bool) : FsM Unit := do
  modify fun c => { c with ip := { c.ip with size := size } }
  iupdate E.geo trans

end ReadWrite

end Sv6Fs
