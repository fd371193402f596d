import Sv6Fs.Files

/-! # Files as byte arrays: the refinement

The abstract model (`Abs`) of what the file calls are for: each inode is a byte array with
a size, of at most `MAXFILE * BSIZE` bytes. `writei` writes the bytes its request asks for
below that bound and says how many, or -1 when `off + n` wraps; `update_size` sets the size;
`readi` returns the bytes up to the size, or -1 past it or when `off + n` wraps. Only once
the storage has run out may a write stop short. A client's calls, each on one inode under
its write latch, run one after another on the system state (`callAll`), and the state shows
each inode as `Sys.files`.

* `writei_spec`, `updateSize_spec`, `readi_spec`: one call, from a state in which block
  ownership holds, each inode's table block is metadata and each size stays below
  `MAXFILE * BSIZE`; the state keeps all three, frees no block, and its files change as the
  abstract call says. A write comes back short, and a read of a hole panics, only when the
  allocator has no block left to give.
* `callAll_refines`: with an allocator that fails only when no block is free, every run of
  such calls is a run of the abstract model in which the storage has run out only if no
  block is free at the end; or a `readi` panics, on a hole below the size, with no block
  free. Reads and writes are of non-device inodes.
* `readi_dev`: a device inode reads as -1 at every offset, whatever its size.
* `readi_allocates`: `readi` of a hole below the size allocates a block, outside any
  transaction.
-/

namespace Sv6Fs

namespace Abs

/-- A file: its size and its bytes. -/
@[ext] structure AFile where
  size : Nat
  bytes : Nat → UInt8

/-- Bytes `[off, off + cnt)` take the source's. -/
def AFile.write (f : AFile) (src : Nat → UInt8) (off cnt : Nat) : AFile :=
  { f with bytes := fun p => if off ≤ p ∧ p < off + cnt then src (p - off) else f.bytes p }

def AFile.setSize (f : AFile) (size : Nat) : AFile := { f with size := size }

/-- A read of `n` bytes at `off` into `dst`: -1 past the end or when `off + n` wraps as a
`u32`; otherwise the `m = min(n, size - off)` bytes from `off` on, and `m`. -/
def AFile.read (f : AFile) (dst : Nat → UInt8) (off n : Nat) : Int × (Nat → UInt8) :=
  if f.size < off ∨ u32 (off + n) < off then (-1, dst)
  else
    let m := min n (f.size - off)
    (m, fun k => if k < m then f.bytes (off + k) else dst k)

example : (AFile.read ⟨5, fun p => p.toUInt8⟩ (fun _ => 0) 3 4).1 = 2 := by decide
example : (AFile.read ⟨5, fun p => p.toUInt8⟩ (fun _ => 0) 6 1).1 = -1 := by decide

@[simp] theorem AFile.write_zero (f : AFile) (src : Nat → UInt8) (off : Nat) :
    f.write src off 0 = f := by
  ext p : 2 <;> simp [AFile.write]

/-- The files, by inode number. -/
abbrev Files := Nat → AFile

/-- How many bytes a write of `n` at `off` asks for, in files of at most `cap` bytes: none
when `off + n` wraps as a `u32`, and otherwise those below `cap`. -/
def want (cap off n : Nat) : Nat := if u32 (off + n) < off then 0 else min n (cap - off)

example : want 100 90 20 = 10 := by decide
example : want 100 4294967290 10 = 0 := by decide

end Abs

open Abs

/-- A call on one inode: `writei(ip, src, off, n, trans, false)`, `update_size(ip, size,
trans)` or `readi(ip, dst, off, n)`. -/
inductive FileOp where
  | write (i : Nat) (src : Nat → UInt8) (off n : Nat) (trans : Bool)
  | setSize (i size : Nat) (trans : Bool)
  | read (i : Nat) (dst : Nat → UInt8) (off n : Nat)

/-- What a call returns: `writei`'s count, nothing, or `readi`'s count and buffer. -/
inductive FileRet where
  | count (r : Int)
  | done
  | data (r : Int × (Nat → UInt8))

namespace Abs

/-- One call of the abstract model, on files of at most `cap` bytes, where `full` says the
storage has run out: a write of the bytes its request asks for, reported by their count, or
by -1 when `off + n` wraps, which once the storage has run out may stop at any prefix of
them (-1 for none); a new size; a read of the file as it is. -/
inductive Step (cap : Nat) (full : Prop) : Files → FileOp → FileRet → Files → Prop
  | write {F : Files} {i off n : Nat} {src : Nat → UInt8} {trans : Bool} {r : Int} (cnt : Nat)
      (hcnt : cnt ≤ want cap off n) (hr : r = toInt32 cnt ∨ cnt = 0 ∧ r = -1)
      (hwhole : ¬ full → cnt = want cap off n ∧
        r = if u32 (off + n) < off then -1 else toInt32 cnt) :
      Step cap full F (.write i src off n trans) (.count r)
        (Function.update F i ((F i).write src off cnt))
  | setSize {F : Files} {i size : Nat} {trans : Bool} :
      Step cap full F (.setSize i size trans) .done (Function.update F i ((F i).setSize size))
  | read {F : Files} {i off n : Nat} {dst : Nat → UInt8} :
      Step cap full F (.read i dst off n) (.data ((F i).read dst off n)) F

/-- A step with the storage run out is one whenever the storage has run out later. -/
theorem Step.mono {cap : Nat} {full full' : Prop} (h : full → full') {F F' : Files} {o : FileOp}
    {r : FileRet} : Step cap full F o r F' → Step cap full' F o r F'
  | .write cnt hcnt hr hwhole => .write cnt hcnt hr fun h' => hwhole (mt h h')
  | .setSize => .setSize
  | .read => .read

/-- Calls one after another. -/
inductive Run (cap : Nat) (full : Prop) : Files → List FileOp → List FileRet → Files → Prop
  | nil {F : Files} : Run cap full F [] [] F
  | cons {F F' F'' : Files} {o : FileOp} {r : FileRet} {os : List FileOp} {rs : List FileRet} :
      Step cap full F o r F' → Run cap full F' os rs F'' → Run cap full F (o :: os) (r :: rs) F''

end Abs

section Calls

variable (E : Env)

/-- A call, on the system state. -/
def FileOp.call : FileOp → SysM FileRet
  | .write i src off n t => FileRet.count <$> onInode i (writei E src off n t false)
  | .setSize i size t => (fun _ => FileRet.done) <$> onInode i (updateSize E size t)
  | .read i dst off n => FileRet.data <$> onInode i (readi E dst off n)

/-- A client's calls, one after another. -/
def callAll : List FileOp → SysM (List FileRet)
  | [] => pure []
  | o :: os => do
    let r ← FileOp.call E o
    let rs ← callAll os
    pure (r :: rs)

/-- Each inode as a file: its size and its bytes. -/
def Sys.files (s : Sys) : Files := fun j =>
  ⟨(s.inodes j).size, fileByte E.geo (s.inodes j) s.fs.buf.data⟩

@[simp] theorem Sys.files_size (s : Sys) (j : Nat) : (s.files E j).size = (s.inodes j).size := rfl
@[simp] theorem Sys.files_bytes (s : Sys) (j : Nat) :
    (s.files E j).bytes = fileByte E.geo (s.inodes j) s.fs.buf.data := rfl

/-- The calls the refinement covers: writes of a `u32` length from an offset at most
`MAXFILE * BSIZE` (a write from further on reaches `bmap`'s out-of-range panic), sizes up to
it, and reads of fewer than `2^31` bytes, whose count is then an `int` as it is, all of
inodes that are not devices; `types` are the inodes' types. -/
def FileOp.Fits (types : Nat → IType) : FileOp → Prop
  | .write i _ off n _ => off ≤ E.geo.maxfile * E.geo.bsize ∧ n < 4294967296 ∧ types i ≠ .dev
  | .setSize _ size _ => size ≤ E.geo.maxfile * E.geo.bsize
  | .read i _ _ n => n < 2147483648 ∧ types i ≠ .dev

/-- No block below the superblock's `size` is free: the allocator has none left to give. -/
def Fs.Full (fs : Fs) : Prop := ∀ b < E.size, fs.free b = false

end Calls

/-- What the file calls keep: block ownership, each inode's table block is metadata (so no
inode's block), and each size is at most `MAXFILE * BSIZE`. -/
structure FilesInv (E : Env) (Meta : Nat → Prop) (s : Sys) : Prop where
  owned : Owned E Meta s
  iblock : ∀ j, Meta (E.geo.iblock (s.inodes j).inum)
  size : ∀ j, (s.inodes j).size ≤ E.geo.maxfile * E.geo.bsize

section Spec

variable {E : Env} {Meta : Nat → Prop} {s : Sys} {i : Nat}

/-- A state with no free block has none after a call that freed no block. -/
theorem Fs.Full.mono {fs fs' : Fs} (h : fs.Full E) (hf : ∀ b, fs'.free b = true → fs.free b = true) :
    fs'.Full E := fun b hb => Bool.eq_false_iff.2 fun h' => by simpa [h b hb] using hf b h'

/-- The files of a state in which inode `i` changed to file `f`, all else kept. -/
theorem Sys.files_put {c : Ctx} {f : AFile} (hsize : c.ip.size = f.size)
    (hbytes : ∀ j p, fileByte E.geo ((s.put i c).inodes j) (s.put i c).fs.buf.data p =
      if j = i then f.bytes p else fileByte E.geo (s.inodes j) s.fs.buf.data p) :
    (s.put i c).files E = Function.update (s.files E) i f := by
  funext j
  by_cases hj : j = i
  · subst hj
    ext p : 2
    · simp [Sys.files, hsize]
    · simpa [Sys.files] using hbytes j p
  · ext p : 2
    · simp [Sys.files, hj]
    · simpa [Sys.files, hj] using hbytes j p

/-- A metadata block is no block of any inode. -/
theorem Owned.meta_not_isPtr (hs : Owned E Meta s) {b : Nat} (hb : Meta b) (j : Nat) :
    ¬ IsPtr E.geo (s.inodes j) s.fs.buf.data b := fun hp => by
  obtain ⟨σ, hσ, -, he⟩ := isPtr_slot E.geo hp
  exact (hs.used j σ hσ (he ▸ hp.1)).2 (he ▸ hb)

/-- Writing a metadata block keeps block ownership and every byte of every file. -/
theorem Owned.writeMeta (hs : Owned E Meta s) {b : Nat} (hb : Meta b) (blk : Block) :
    Owned E Meta (s.put i ((s.ctx i).writeBlock b blk)) ∧
      ∀ j p, fileByte E.geo ((s.put i ((s.ctx i).writeBlock b blk)).inodes j)
        (s.put i ((s.ctx i).writeBlock b blk)).fs.buf.data p =
          fileByte E.geo (s.inodes j) s.fs.buf.data p := by
  refine ⟨hs.put_writeBlock (hs.meta_not_isPtr hb) blk, fun j p => ?_⟩
  simp only [Sys.put_inodes, Ctx.writeBlock_ip, Sys.ctx_ip, Function.update_eq_self, Sys.put_fs,
    Ctx.writeBlock_data, Sys.ctx_fs]
  rw [fileByte_write (hs.meta_not_isPtr hb j), if_neg]
  rintro ⟨hm, hb0⟩
  obtain ⟨hlt, he⟩ := mapped_of_ne_zero E.geo (hm ▸ hb0)
  rw [he] at hm
  exact (hs.used j _ (dataSlot_valid E.geo hlt) (hm ▸ hb0)).2 (hm ▸ hb)

/-- A step that is the last of a call and returns in an agreeing state. -/
theorem Ctx.Agree.ite {q : Prop} [Decidable q] {x : FsM PUnit}
    (hx : ∀ c, ∃ c', x c = .ok ⟨⟩ c' ∧ c.Agree c') (c : Ctx) :
    ∃ c', (if q then x else pure ⟨⟩) c = .ok ⟨⟩ c' ∧ c.Agree c' := by
  split
  · exact hx c
  · exact ⟨c, rfl, ⟨rfl, rfl, rfl, rfl⟩⟩

/-- `iupdate` of an inode whose table block is metadata keeps block ownership, the inode,
the free-bit-vector, its slots and every byte of every file. -/
theorem Owned.iupdate (hs : Owned E Meta s) (hb : Meta (E.geo.iblock (s.inodes i).inum))
    (trans : Bool) :
    ∃ c', iupdate E.geo trans (s.ctx i) = .ok ⟨⟩ c' ∧ c'.ip = s.inodes i ∧ c'.fs.free = s.fs.free ∧
      Owned E Meta (s.put i c') ∧ (∀ j p, fileByte E.geo ((s.put i c').inodes j)
        (s.put i c').fs.buf.data p = fileByte E.geo (s.inodes j) s.fs.buf.data p) ∧
      ∀ τ, τ.Valid E.geo → slotVal E.geo c'.ip c'.fs.buf.data τ =
        slotVal E.geo (s.inodes i) s.fs.buf.data τ := by
  obtain ⟨hs₁, hbytes₁⟩ := hs.writeMeta hb (putDinode E.geo (s.fs.buf.data
    (E.geo.iblock (s.inodes i).inum)) (s.inodes i)) (i := i)
  obtain ⟨c', e, ha⟩ := Ctx.Agree.ite (q := trans = true) (logBlock_agree _)
    ((s.ctx i).writeBlock (E.geo.iblock (s.inodes i).inum)
      (putDinode E.geo (s.fs.buf.data (E.geo.iblock (s.inodes i).inum)) (s.inodes i)))
  obtain ⟨hs', hbytes'⟩ := hs₁.put_agree ha
  refine ⟨c', e, ha.ip, ha.free, by simpa using hs', fun j p => by rw [hbytes', hbytes₁],
    fun τ hτ => ?_⟩
  rw [ha.ip, ha.data]
  exact slotVal_writeBlock (hs.meta_not_isPtr hb i) _ hτ

/-- Block ownership sees only an inode's addresses. -/
theorem Owned.put_addrs {c : Ctx} (hs : Owned E Meta (s.put i c)) {ip : Inode}
    (ha : ip.addrs = c.ip.addrs) : Owned E Meta (s.put i ⟨ip, c.fs⟩) :=
  hs.of_slots (fun j τ _ => by
    by_cases hj : j = i
    · subst hj; simpa using slotVal_of_addrs E.geo ha _ τ
    · simp [hj]) rfl rfl

/-! ## The calls, past their early returns -/

/-- `writei` returns -1 at once on a device, and when `off + n` wraps. -/
theorem writei_ret {c : Ctx} {src : Nat → UInt8} {off n : Nat} {trans writeback : Bool}
    (h : c.ip.type = .dev ∨ u32 (off + n) < off) :
    writei E src off n trans writeback c = .ok (-1) c := by
  rcases h with h | h <;> simp [writei, h]

/-- Otherwise it runs its loop over the request, cut at `MAXFILE * BSIZE`. -/
theorem writei_eq {c : Ctx} {src : Nat → UInt8} {off n : Nat} {trans writeback : Bool}
    (hdev : c.ip.type ≠ .dev) (hov : ¬ u32 (off + n) < off) :
    writei E src off n trans writeback c = writeiLoop E src trans writeback
      (if E.geo.maxfile * E.geo.bsize < off + n then
        u32 (E.geo.maxfile * E.geo.bsize + 4294967296 - off) else n) off 0 c := by
  simp [writei, hdev, hov]

/-- `readi` returns -1 at once on a device, past the end, and when `off + n` wraps. -/
theorem readi_ret {c : Ctx} {dst : Nat → UInt8} {off n : Nat}
    (h : c.ip.type = .dev ∨ c.ip.size < off ∨ u32 (off + n) < off) :
    readi E dst off n c = .ok (-1, dst) c := by
  by_cases hdev : c.ip.type = .dev
  · simp [readi, hdev]
  · simp [readi, hdev, h.resolve_left hdev]

/-- Otherwise it runs its loop over the request, cut at the size, and returns its length. -/
theorem readi_eq {c : Ctx} {dst : Nat → UInt8} {off n : Nat} (hdev : c.ip.type ≠ .dev)
    (hov : ¬ (c.ip.size < off ∨ u32 (off + n) < off)) :
    readi E dst off n c = (do
      let d ← readiLoop E (if c.ip.size < off + n then c.ip.size - off else n) dst off 0
      pure (toInt32 (if c.ip.size < off + n then c.ip.size - off else n), d) : FsM _) c := by
  simp [readi, hdev, hov]

/-! ## One call -/

/-- A change to inode `i` alone that keeps block ownership, its inode number and a size in
range keeps the invariant. -/
theorem FilesInv.put (hs : FilesInv E Meta s) {c : Ctx} (ho : Owned E Meta (s.put i c))
    (hinum : c.ip.inum = (s.inodes i).inum)
    (hsize : c.ip.size ≤ E.geo.maxfile * E.geo.bsize) : FilesInv E Meta (s.put i c) where
  owned := ho
  iblock j := by
    by_cases hj : j = i
    · subst hj; simpa [hinum] using hs.iblock j
    · simpa [hj] using hs.iblock j
  size j := by
    by_cases hj : j = i
    · subst hj; simpa using hsize
    · simpa [hj] using hs.size j

/-- `writei` from an offset at most `MAXFILE * BSIZE` returns; it writes a prefix of the
request, of the length its count reports, and frees no block. On a non-device inode, for a
`u32` length, the prefix is at most the bytes the request asks for, and all of them, with
their count returned, as long as the allocator still has a block to give. -/
theorem writei_spec (hE : E.Sane) (hs : FilesInv E Meta s) (src : Nat → UInt8) {off : Nat}
    (n : Nat) (trans writeback : Bool) (hoff : off ≤ E.geo.maxfile * E.geo.bsize) :
    ∃ r c', writei E src off n trans writeback (s.ctx i) = .ok r c' ∧
      FilesInv E Meta (s.put i c') ∧ (∃ a, c'.ip = { s.inodes i with addrs := a }) ∧
      (∀ b, c'.fs.free b = true → s.fs.free b = true) ∧
      ∃ cnt, cnt ≤ n ∧ (r = toInt32 cnt ∨ cnt = 0 ∧ r = -1) ∧
        ((s.inodes i).type ≠ .dev → n < 4294967296 →
          cnt ≤ want (E.geo.maxfile * E.geo.bsize) off n ∧
          (E.allocBlock c'.fs.free < E.size → cnt = want (E.geo.maxfile * E.geo.bsize) off n ∧
            r = if u32 (off + n) < off then -1 else toInt32 cnt)) ∧
        (s.put i c').files E = Function.update (s.files E) i ((s.files E i).write src off cnt) := by
  by_cases hret : (s.ctx i).ip.type = .dev ∨ u32 (off + n) < off
  · -- a device, or a request that wraps: nothing is written
    refine ⟨-1, s.ctx i, writei_ret hret, by simpa using hs, ⟨_, rfl⟩, fun _ => id, 0,
      Nat.zero_le _, .inr ⟨rfl, rfl⟩, fun hdev _ => ?_, by simp⟩
    simp [want, hret.resolve_left hdev]
  push_neg at hret
  rw [writei_eq hret.1 (not_lt.2 hret.2)]
  set n' := if E.geo.maxfile * E.geo.bsize < off + n then
    u32 (E.geo.maxfile * E.geo.bsize + 4294967296 - off) else n
  have hn' : off + n' ≤ E.geo.maxfile * E.geo.bsize ∧ n' ≤ n := by
    simp only [n', u32]
    split <;> omega
  obtain ⟨r, c', he, ho, ⟨a, hip⟩, hfree, cnt, -, hcn, hr, hfull, hbytes⟩ :=
    hs.owned.writeiLoop_ok hE src trans writeback n' off 0 s (Nat.zero_le _) (Nat.zero_le _)
      (by omega)
  refine ⟨r, c', he, hs.put ho (by rw [hip]) (by rw [hip]; exact hs.size i), ⟨a, hip⟩, hfree,
    cnt, by omega, hr.imp_right fun h => ⟨h.1, h.2.1⟩, fun _ hn => ?_,
    Sys.files_put (by rw [hip]; rfl) fun j p => ?_⟩
  · -- for a `u32` length, `writei`'s cut of the request is what the request asks for
    have hw : n' = want (E.geo.maxfile * E.geo.bsize) off n := by
      have h32 : off + n < 4294967296 := by
        have := hret.2
        simp only [u32] at this
        omega
      simp only [n', want]
      rw [if_neg (not_lt.2 hret.2)]
      simp only [u32, Nat.min_def]
      split_ifs <;> omega
    refine ⟨hw ▸ hcn, fun hlt => ?_⟩
    -- with a block left to give, the loop did not stop short
    have hall : ¬ cnt < n' := fun h => (hfull h).not_lt hlt
    rw [if_neg (not_lt.2 hret.2)]
    exact ⟨by omega, hr.resolve_right fun h => hall h.2.2⟩
  · rw [hbytes]
    by_cases hj : j = i <;> simp [hj, Sys.files, AFile.write]

/-- `update_size` of a size up to `MAXFILE * BSIZE` returns, and sets the size. -/
theorem updateSize_spec (hs : FilesInv E Meta s) {size : Nat} (trans : Bool)
    (hsize : size ≤ E.geo.maxfile * E.geo.bsize) :
    ∃ c', updateSize E size trans (s.ctx i) = .ok ⟨⟩ c' ∧ FilesInv E Meta (s.put i c') ∧
      c'.ip = { s.inodes i with size := size } ∧ c'.fs.free = s.fs.free ∧
      (s.put i c').files E = Function.update (s.files E) i ((s.files E i).setSize size) := by
  set s₁ := s.put i ⟨{ s.inodes i with size := size }, s.fs⟩
  have hs₁ : Owned E Meta s₁ := Owned.put_addrs (c := s.ctx i) (by rw [Sys.put_self]; exact hs.owned) rfl
  obtain ⟨c', e, hip, hfree, ho, hbytes, -⟩ :=
    hs₁.iupdate (i := i) (by simpa [s₁] using hs.iblock i) trans
  simp only [s₁, Sys.put_put] at ho hbytes
  have hu : updateSize E size trans (s.ctx i) = iupdate E.geo trans (s₁.ctx i) := by
    simp only [updateSize, FsM.bind_apply, FsM.modify_apply, s₁, Sys.put_ctx]
    rfl
  refine ⟨c', hu.trans e, hs.put ho (by simp [hip, s₁]) (by simp [hip, s₁, hsize]), by simp [hip, s₁],
    hfree, Sys.files_put (by simp [hip, s₁, Sys.files, AFile.setSize]) fun j p => ?_⟩
  rw [hbytes]
  by_cases hj : j = i
  · subst hj; simp only [s₁, Sys.put_inodes, Function.update_same, if_true]; rfl
  · simp [s₁, hj]

/-- `readi` of fewer than `2^31` bytes of a non-device inode returns what the abstract read
returns, changes no file and frees no block, unless it runs out of blocks for a hole below
the size and panics, the hole still there and the allocator with no block to give. -/
theorem readi_spec (hE : E.Sane) (hs : FilesInv E Meta s) (dst : Nat → UInt8) (off : Nat) {n : Nat}
    (hdev : (s.inodes i).type ≠ .dev) (hn : n < 2147483648) :
    (∃ c', readi E dst off n (s.ctx i) = .ok ((s.files E i).read dst off n) c' ∧
      FilesInv E Meta (s.put i c') ∧ (∃ a, c'.ip = { s.inodes i with addrs := a }) ∧
      (∀ b, c'.fs.free b = true → s.fs.free b = true) ∧ (s.put i c').files E = s.files E) ∨
    ∃ c', readi E dst off n (s.ctx i) = .error (.panic "readi: out of blocks") c' ∧
      E.size ≤ E.allocBlock c'.fs.free ∧
      ∃ p < c'.ip.size, mapped E.geo c'.ip c'.fs.buf.data (p / E.geo.bsize) = 0 := by
  by_cases hret : (s.inodes i).size < off ∨ u32 (off + n) < off
  · refine .inl ⟨s.ctx i, ?_, by simpa using hs, ⟨_, rfl⟩, fun _ => id, by simp⟩
    rw [readi_ret (.inr hret)]
    simp [AFile.read, Sys.files, hret]
  rw [readi_eq hdev hret]
  simp only [Sys.ctx_ip]
  set n' := if (s.inodes i).size < off + n then (s.inodes i).size - off else n
  have hn' : off + n' ≤ (s.inodes i).size ∧ n' = min n ((s.inodes i).size - off) := by
    simp only [n']
    split <;> omega
  rcases hs.owned.readiLoop_ok hE n' dst off 0 s (Nat.zero_le _) (Nat.zero_le _)
    (by have := hs.size i; omega) with
    ⟨d, c', he, ho, ⟨a, hip⟩, hfree, hbytes, hd⟩ | ⟨c', he, ⟨a, hip⟩, hfull, p, -, hp, hmap⟩
  · refine .inl ⟨c', ?_, hs.put ho (by rw [hip]) (by rw [hip]; exact hs.size i), ⟨a, hip⟩,
      hfree, ?_⟩
    · rw [FsM.bind_apply, he]
      dsimp only
      rw [FsM.pure_apply, AFile.read, Sys.files_size, if_neg hret, ← hn'.2,
        toInt32_of_lt (by omega)]
      congr
      funext k
      rw [hd]
      simp [Sys.files]
    · rw [Sys.files_put (f := s.files E i) (by rw [hip]; rfl) fun j p => by
        rw [hbytes]; by_cases hj : j = i <;> simp [hj, Sys.files], Function.update_eq_self]
  · have hsize : c'.ip.size = (s.inodes i).size := by rw [hip]
    exact .inr ⟨c', by rw [FsM.bind_apply, he], hfull, p, by omega, hmap⟩

/-- A device inode reads as -1, whatever its size and the offset. -/
theorem readi_dev {c : Ctx} (h : c.ip.type = .dev) (dst : Nat → UInt8) (off n : Nat) :
    readi E dst off n c = .ok (-1, dst) c :=
  readi_ret (.inl h)

/-- `readi` of a byte in a direct block that is a hole below the size allocates: it maps the
block with `bmap(ip, off / BSIZE, NULL, true)`, allocation on and no transaction, so the
direct slot takes the block the allocator hands out, which leaves the free-bit-vector, and no
transaction records it as allocated. -/
theorem readi_allocates (hE : E.Sane) {c : Ctx} (hdev : c.ip.type ≠ .dev) {k : Nat}
    (hk : k < E.geo.ndirect) (hhole : c.ip.addrs k = 0) (hoff : k * E.geo.bsize < c.ip.size)
    (h32 : c.ip.size < 4294967296) (h1 : E.allocBlock c.fs.free < E.size) (dst : Nat → UInt8) :
    ∃ r c', readi E dst (k * E.geo.bsize) 1 c = .ok r c' ∧
      c'.ip.addrs k = E.allocBlock c.fs.free ∧ c.fs.free (E.allocBlock c.fs.free) = true ∧
      c'.fs.free (E.allocBlock c.fs.free) = false ∧ c'.fs.tx = c.fs.tx := by
  set y := E.allocBlock c.fs.free
  have hret : ¬ (c.ip.size < k * E.geo.bsize ∨ u32 (k * E.geo.bsize + 1) < k * E.geo.bsize) := by
    rw [u32, Nat.mod_eq_of_lt (by omega)]; omega
  have hdiv : k * E.geo.bsize / E.geo.bsize = k := Nat.mul_div_cancel k E.geo.bsize_pos
  have hmod : k * E.geo.bsize % E.geo.bsize = 0 := Nat.mul_mod_left k E.geo.bsize
  set c₁ : Ctx := ⟨c.ip.setAddr k y, (c.takeBlock y false true).fs⟩
  have hb : bmap E k false true c = .ok y c₁ := by
    simp [bmap, ensureAddr, balloc_apply, h1, hhole, hk, y, c₁]
  have hm : min 1 E.geo.bsize = 1 := Nat.min_eq_left E.geo.bsize_pos
  have hr : readi E dst (k * E.geo.bsize) 1 c =
      .ok (toInt32 1, copyOut dst 0 (c₁.fs.buf.data y) 0 1) c₁ := by
    rw [readi_eq hdev hret, if_neg (show ¬ c.ip.size < k * E.geo.bsize + 1 by omega), FsM.bind_apply, readiLoop, dif_pos Nat.one_pos]
    simp only [FsM.bind_apply, catchOob, hdiv, hb, hmod, FsM.get_apply, Nat.sub_zero, hm]
    rw [readiLoop, dif_neg (show ¬ 0 + 1 < 1 by omega)]
    rfl
  exact ⟨_, _, hr, by simp [c₁], hE.allocFree _ h1, by simp [c₁], by simp [c₁, Ctx.takeBlock]⟩

/-- Two direct slots: inode 1, of size 9, holds block 5 in slot 1 and none in slot 0, as
`writei` of a byte at offset 8 on an empty file leaves it; reading its first byte takes
block 6. -/
theorem readi_allocates_small :
    let E := Env.firstFit ⟨64, 2, 12, by decide⟩ 20
    let c : Ctx := ⟨⟨1, .file, 0, 0, 1, 9, 0, fun k => if k = 1 then 5 else 0, none, 0, 1⟩,
      ⟨⟨fun _ => zeroBlock, fun _ => false, fun _ => zeroBlock⟩, fun b => decide (6 ≤ b),
        Transaction.empty⟩⟩
    ∃ r c', readi E (fun _ => 0) (0 * E.geo.bsize) 1 c = .ok r c' ∧
      c'.ip.addrs 0 = E.allocBlock c.fs.free ∧ c.fs.free (E.allocBlock c.fs.free) = true ∧
      c'.fs.free (E.allocBlock c.fs.free) = false ∧ c'.fs.tx = c.fs.tx :=
  readi_allocates (Env.firstFit_sane _ (by decide)) (by decide) (by decide) rfl (by decide)
    (by decide) (by decide) _

/-! ## Runs -/

theorem Sys.type_put {c : Ctx} (h : c.ip.type = (s.inodes i).type) (j : Nat) :
    ((s.put i c).inodes j).type = (s.inodes j).type := by
  by_cases hj : j = i
  · subst hj; simpa using h
  · simp [hj]

/-- One call the refinement covers is a step of the abstract model, in which the storage
has run out only if no block is free after it; it keeps the invariant and the inodes' types
and frees no block. Or it is a read that ran out of blocks for a hole below the size. -/
theorem FileOp.call_refines (hE : E.Sane) (hC : E.Complete) (hs : FilesInv E Meta s) {o : FileOp}
    (ho : o.Fits E fun j => (s.inodes j).type) :
    (∃ r s', o.call E s = .ok r s' ∧
      Abs.Step (E.geo.maxfile * E.geo.bsize) (s'.fs.Full E) (s.files E) o r (s'.files E) ∧
      FilesInv E Meta s' ∧ (∀ j, (s'.inodes j).type = (s.inodes j).type) ∧
      ∀ b, s'.fs.free b = true → s.fs.free b = true) ∨
    ∃ s', o.call E s = .error (.panic "readi: out of blocks") s' ∧ s'.fs.Full E ∧
      ∃ j, ∃ p < (s'.inodes j).size, mapped E.geo (s'.inodes j) s'.fs.buf.data (p / E.geo.bsize) = 0 := by
  cases o with
  | write i src off n t =>
    obtain ⟨r, c', he, hinv, ⟨a, hip⟩, hfree, cnt, -, hr, hwant, hf⟩ :=
      writei_spec hE hs src n t false ho.1
    obtain ⟨hcnt, hwhole⟩ := hwant ho.2.2 ho.2.1
    refine .inl ⟨.count r, s.put i c', by simp [FileOp.call, onInode_of_ok he], ?_, hinv,
      Sys.type_put (by rw [hip]), hfree⟩
    rw [hf]
    exact .write cnt hcnt hr fun hnf => hwhole (not_le.1 fun h => hnf (hC _ h))
  | setSize i size t =>
    obtain ⟨c', he, hinv, hip, hfree, hf⟩ := updateSize_spec hs t ho (i := i)
    exact .inl ⟨.done, s.put i c', by simp [FileOp.call, onInode_of_ok he], by rw [hf]; exact .setSize,
      hinv, Sys.type_put (by rw [hip]), fun b h => hfree ▸ h⟩
  | read i dst off n =>
    rcases readi_spec hE hs dst off ho.2 ho.1 with
      ⟨c', he, hinv, ⟨a, hip⟩, hfree, hf⟩ | ⟨c', he, hfull, p, hp, hmap⟩
    · exact .inl ⟨.data ((s.files E i).read dst off n), s.put i c',
        by simp [FileOp.call, onInode_of_ok he], by rw [hf]; exact .read, hinv,
        Sys.type_put (by rw [hip]), hfree⟩
    · exact .inr ⟨s.put i c', by simp [FileOp.call, onInode_of_error he], hC _ hfull, i, p,
        by simpa using hp, by simpa using hmap⟩

/-- A run of calls the refinement covers, with the free blocks it leaves: a run of the
abstract model that frees no block, or a read that ran out of blocks for a hole. -/
theorem callAll_run (hE : E.Sane) (hC : E.Complete) : ∀ (ops : List FileOp) (s : Sys),
    FilesInv E Meta s → (∀ o ∈ ops, o.Fits E fun j => (s.inodes j).type) →
    (∃ rets s', callAll E ops s = .ok rets s' ∧
      Abs.Run (E.geo.maxfile * E.geo.bsize) (s'.fs.Full E) (s.files E) ops rets (s'.files E) ∧
      ∀ b, s'.fs.free b = true → s.fs.free b = true) ∨
    ∃ s', callAll E ops s = .error (.panic "readi: out of blocks") s' ∧ s'.fs.Full E ∧
      ∃ j, ∃ p < (s'.inodes j).size, mapped E.geo (s'.inodes j) s'.fs.buf.data (p / E.geo.bsize) = 0
  | [], s, _, _ => .inl ⟨[], s, rfl, .nil, fun _ => id⟩
  | o :: os, s, hs, hops => by
    rcases FileOp.call_refines hE hC hs (hops o (List.mem_cons_self _ _)) with
      ⟨r, s₁, he, hstep, hs₁, hty, hfree₁⟩ | ⟨s₁, he, hpanic⟩
    · have hops' : ∀ o ∈ os, o.Fits E fun j => (s₁.inodes j).type := by
        rw [funext hty]
        exact fun o h => hops o (List.mem_cons_of_mem _ h)
      rcases callAll_run hE hC os s₁ hs₁ hops' with ⟨rs, s', he', hrun, hfree⟩ | ⟨s', he', hpanic⟩
      · -- the storage ran out by the end if it had after the first call
        exact .inl ⟨r :: rs, s', by simp [callAll, he, he'],
          .cons (hstep.mono fun h => h.mono hfree) hrun, fun b h => hfree₁ b (hfree b h)⟩
      · exact .inr ⟨s', by simp [callAll, he, he'], hpanic⟩
    · exact .inr ⟨s₁, by simp [callAll, he], hpanic⟩

end Spec

end Sv6Fs
