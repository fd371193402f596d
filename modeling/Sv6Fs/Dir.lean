import Sv6Fs.Sys

/-! # Directories

A directory's data is a sequence of packed `dirent` records `{inum, name[DIRSIZ]}`;
`inum == 0` marks a deleted entry. `dir_init` builds the in-memory index `name → (inum,
offset)` from the data, block by block, stepping `sizeof(dirent)` from each block's start;
`dir_flush_entry` writes one record back at its offset through `writei`. `dirlink` and
`dirunlink` change the index and flush the one record.

`dirlink` reads `if (!dp->dir->insert(...)); return -1;`: the empty statement after the
`if` makes the `return -1` unconditional, so every call returns `-1` right after the
insert, and the code after it (advancing `dir_offset`, the link counts, the flush) never
runs. `dirlink` below is what runs.

Names are byte strings. The index is keyed by `strbuf<DIRSIZ>` of a name: its bytes before
the first NUL, at most `DIRSIZ` of them.

* `dirlink_breaks_agreement`: a fresh name's entry sits at `dir_offset` with no record
  behind it.
* `dirlink_always_fails`: `dirlink` returns -1 for every name, and changes the index exactly
  when the name is fresh.
* `dirlink_keeps_links`: it changes no link count, so a `dirunlink` that follows leaves the
  named inode one link short.
-/

namespace Sv6Fs

section Names

variable (G : Geometry)

/-- The bytes of a C string: those before its first NUL. -/
def cstr (s : List UInt8) : List UInt8 := s.takeWhile (· ≠ 0)

/-- `strbuf<DIRSIZ>(s)`: the index key of a name. -/
def strbuf (s : List UInt8) : List UInt8 := (cstr s).take G.dirsiz

/-- `strncmp(name, "..", DIRSIZ) == 0`. -/
def isDotDot (name : List UInt8) : Bool :=
  (cstr name ++ [0]).take G.dirsiz == ([46, 46, 0] : List UInt8).take G.dirsiz

end Names

namespace DirIndex

/-- `new dir_entries(...)`: no entry. -/
def empty : DirIndex := fun _ => none

/-- `insert(k, v)`: fails, leaving the index, when `k` is present. -/
def insert (d : DirIndex) (k : List UInt8) (v : DirEntryInfo) : Option DirIndex :=
  if d k = none then some (Function.update d k (some v)) else none

/-- `remove(k)`: fails when `k` is absent. -/
def remove (d : DirIndex) (k : List UInt8) : Option DirIndex :=
  if d k = none then none else some (Function.update d k none)

/-- The index after an `insert` whose result is not looked at. -/
def insertOrKeep (d : DirIndex) (k : List UInt8) (v : DirEntryInfo) : DirIndex :=
  (d.insert k v).getD d

end DirIndex

section Records

variable (G : Geometry)

/-- The bytes of `struct dirent de` after `strncpy(de.name, name, DIRSIZ); de.inum = inum;`:
the `u32` inode number, then the name padded with NULs. -/
def direntBytes (inum : Nat) (name : List UInt8) : Nat → UInt8 := fun k =>
  if k < 4 then UInt8.ofNat (inum / 256 ^ k) else (cstr name).getD (k - 4) 0

/-- The inode number of the record at byte `pos` of a block. -/
def recordInum (data : Block) (pos : Nat) : Nat :=
  (data pos).toNat + (data (pos + 1)).toNat * 256 + (data (pos + 2)).toNat * 65536 +
    (data (pos + 3)).toNat * 16777216

/-- The name bytes of the record at byte `pos` of a block. -/
def recordName (data : Block) (pos : Nat) : List UInt8 :=
  (List.range G.dirsiz).map fun j => data (pos + 4 + j)

/-- The records `dir_init` reads in one block: `for (de = data; de < data + BSIZE; de++)`. -/
def recordsPerBlock : Nat := blockRoundup G.direntSize G.bsize

/-- The inner loop of `dir_init` over the records of one block, from record `k` on, with
`n` records left and `dirOffset` the offset of record `k`. -/
def scanRecords (data : Block) : (n k : Nat) → DirIndex → Nat → DirIndex
  | 0, _, d, _ => d
  | n + 1, k, d, dirOffset =>
    let pos := k * G.direntSize
    let d := if recordInum data pos ≠ 0 then
        d.insertOrKeep (strbuf G (recordName G data pos)) ⟨recordInum data pos, dirOffset⟩
      else d
    scanRecords data n (k + 1) d (dirOffset + G.direntSize)

end Records

section DirOps

variable (E : Env)

/-- The outer loop of `dir_init` over the directory's blocks: `n` blocks left, the next
at byte `off`, with the running `dir_offset`; returns the final `dir_offset`. -/
def dirInitBlocks : (n off dirOffset : Nat) → FsM Nat
  | 0, _, dirOffset => pure dirOffset
  | n + 1, off, dirOffset => do
    if dirOffset ≠ off then throw (.panic "assertion failed: dir_offset == off")
    match ← catchOob (bmap E (off / E.geo.bsize) false true) with
    | none => throw (.panic "dir_init: out of blocks")
    | some b => do
      let data := (← get).fs.buf.data b
      modify fun c => { c with ip := { c.ip with dir := c.ip.dir.map (fun d =>
        scanRecords E.geo data (recordsPerBlock E.geo) 0 d dirOffset) } }
      dirInitBlocks n (off + E.geo.bsize)
        (dirOffset + recordsPerBlock E.geo * E.geo.direntSize)

/-- `dir_init(dp)`: build the index once. -/
def dirInit : FsM Unit := do
  let ip := (← get).ip
  if ip.dir.isSome then return ()
  if ip.type ≠ .dir then throw (.panic "dir_init: inode is not a directory\n")
  modify fun c => { c with ip := { c.ip with dir := some DirIndex.empty } }
  let dirOffset ← dirInitBlocks E (blockRoundup E.geo.bsize ip.size) 0 0
  modify fun c => { c with ip := { c.ip with dirOffset := dirOffset } }

/-- `dir_flush_entry(dp, name, trans)`: write the entry's record at its offset and grow
the directory's size to cover it. -/
def dirFlushEntry (name : List UInt8) (trans : Bool) : FsM Unit := do
  match (← get).ip.dir with
  | none => pure ()
  | some d =>
    let info := (d (strbuf E.geo name)).getD ⟨0, 0⟩
    let r ← writei E (direntBytes info.inum name) info.offset E.geo.direntSize trans false
    if r ≠ E.geo.direntSize then throw (.panic "dir_flush_entry")
    if (← get).ip.size < info.offset + E.geo.direntSize then
      modify fun c => { c with ip := { c.ip with size := info.offset + E.geo.direntSize } }
    iupdate E.geo trans

/-- `dirlookup(dp, name)`: the inode number of a live entry. -/
def dirlookup (name : List UInt8) : FsM (Option Nat) := do
  dirInit E
  let info := (((← get).ip.dir.getD DirIndex.empty) (strbuf E.geo name)).getD ⟨0, 0⟩
  return if info.inum = 0 then none else some info.inum

/-- The index of inode `dp` after `f`. -/
def mapDir (dp : Nat) (f : DirIndex → DirIndex) : SysM Unit :=
  modify fun s => { s with
    inodes := Function.update s.inodes dp { s.inodes dp with dir := (s.inodes dp).dir.map f } }

/-- `dirlink(dp, name, inum, inc_link, trans)` as it runs: `dir_init`, the insert of
`(inum, dir_offset)`, and the unconditional `return -1`. -/
def dirlink (dp : Nat) (name : List UInt8) (inum : Nat) (_incLink _trans : Bool) :
    SysM Int := do
  onInode dp (dirInit E)
  let dirOffset := ((← get).inodes dp).dirOffset
  mapDir dp fun d => d.insertOrKeep (strbuf E.geo name) ⟨inum, dirOffset⟩
  return -1

/-- `dirunlink(dp, name, inum, dec_link, trans)`: replace the entry by a record of inode
number 0 on disk and drop it from the index. -/
def dirunlink (dp : Nat) (name : List UInt8) (inum : Nat) (decLink trans : Bool) :
    SysM Int := do
  onInode dp (dirInit E)
  let key := strbuf E.geo name
  let d := ((← get).inodes dp).dir.getD DirIndex.empty
  let info := (d key).getD ⟨0, 0⟩
  match d.remove key with
  | none => return -1
  | some d =>
    match d.insert key { info with inum := 0 } with
    | none => return -1
    | some d => do
      mapDir dp fun _ => d
      if !isDotDot E.geo name then
        modify fun s => { s with inodes := Function.update s.inodes inum (s.inodes inum).unlink }
        if decLink then
          modify fun s => { s with inodes := Function.update s.inodes dp (s.inodes dp).unlink }
      onInode dp (dirFlushEntry E name trans)
      mapDir dp fun d => (d.remove key).getD d
      return 0

end DirOps

end Sv6Fs

namespace Sv6Fs

/-! ## The index and the data agree -/

section Agree

variable (G : Geometry)

/-- The agreement of a directory's index `d` with its data (seen through the cache) and
its insertion cursor: every entry is live, sits at a record boundary below `dir_offset`
and is exactly the record `{inum, name}` there; distinct names have distinct offsets;
every live record below `size` is an entry's; and `dir_offset` is at or past the end. -/
structure DirAgree (ip : Inode) (data : Nat → Block) (d : DirIndex) : Prop where
  entry : ∀ key e, d key = some e →
    e.inum ≠ 0 ∧ G.direntSize ∣ e.offset ∧ e.offset < ip.dirOffset ∧
      ∀ k < G.direntSize, fileByte G ip data (e.offset + k) = direntBytes e.inum key k
  offsets : ∀ k₁ k₂ e₁ e₂, d k₁ = some e₁ → d k₂ = some e₂ → k₁ ≠ k₂ → e₁.offset ≠ e₂.offset
  live : ∀ off, G.direntSize ∣ off → off + G.direntSize ≤ ip.size →
    (let inum := recordInum (fun k => fileByte G ip data (off + k)) 0
     inum ≠ 0 → ∃ key, d key = some ⟨inum, off⟩)
  cursor : ip.size ≤ ip.dirOffset

end Agree

section Link

variable (E : Env)

theorem dirInit_of_some {c : Ctx} {d : DirIndex} (h : c.ip.dir = some d) :
    dirInit E c = .ok () c := by
  simp [dirInit, h]

/-- Once the index is built, `dirlink` only inserts `(inum, dir_offset)` and returns -1. -/
theorem dirlink_of_some {s : Sys} {dp : Nat} {d : DirIndex} (h : (s.inodes dp).dir = some d)
    (name : List UInt8) (inum : Nat) (incLink trans : Bool) :
    dirlink E dp name inum incLink trans s = .ok (-1) (s.setInode dp { (s.inodes dp) with
      dir := some (d.insertOrKeep (strbuf E.geo name) ⟨inum, (s.inodes dp).dirOffset⟩) }) := by
  have hinit := @onInode_of_ok Unit (dirInit E) s dp () ⟨s.inodes dp, s.fs⟩
    (dirInit_of_some E (show (⟨s.inodes dp, s.fs⟩ : Ctx).ip.dir = some d from h))
  simp only [Sys.put, Function.update_eq_self] at hinit
  simp [dirlink, hinit, mapDir, h, Sys.setInode]

theorem insertOrKeep_self {d : DirIndex} {k : List UInt8} (v : DirEntryInfo) (h : d k = none) :
    d.insertOrKeep k v k = some v := by
  simp [DirIndex.insertOrKeep, DirIndex.insert, h]

/-- An `insert` whose result is not looked at changes the index exactly when the key is
absent. -/
theorem insertOrKeep_eq_self_iff {d : DirIndex} {k : List UInt8} (v : DirEntryInfo) :
    d.insertOrKeep k v = d ↔ d k ≠ none := by
  unfold DirIndex.insertOrKeep DirIndex.insert
  by_cases h : d k = none
  · simp only [h, if_true, Option.getD_some, ne_eq, not_true_eq_false, iff_false]
    intro he
    have := congrFun he k
    simp [h] at this
  · simp [h]

/-- `dirlink` of a name the index lacks leaves the index disagreeing with the directory:
the new entry sits at `dir_offset` itself, which `dirlink` never advances, and no record
was written for it. -/
theorem dirlink_breaks_agreement {s : Sys} {dp : Nat} {d : DirIndex}
    (h : (s.inodes dp).dir = some d) {name : List UInt8} (hfresh : d (strbuf E.geo name) = none)
    (inum : Nat) (incLink trans : Bool) :
    ∃ s' d', dirlink E dp name inum incLink trans s = .ok (-1) s' ∧
      (s'.inodes dp).dir = some d' ∧ ¬ DirAgree E.geo (s'.inodes dp) s'.fs.buf.data d' := by
  refine ⟨_, d.insertOrKeep (strbuf E.geo name) ⟨inum, (s.inodes dp).dirOffset⟩,
    dirlink_of_some E h name inum incLink trans, by simp, fun hagree => ?_⟩
  have hk := hagree.entry _ _ (insertOrKeep_self ⟨inum, (s.inodes dp).dirOffset⟩ hfresh)
  simp at hk

/-- Once the index is built, `dirlink` returns -1 whatever the name: it never returns 0. It
keeps `dir_offset` and the size, and it keeps the index exactly when the name was already
there; a fresh name is left in the index. -/
theorem dirlink_always_fails {s : Sys} {dp : Nat} {d : DirIndex} (h : (s.inodes dp).dir = some d)
    (name : List UInt8) (inum : Nat) (incLink trans : Bool) :
    ∃ s', dirlink E dp name inum incLink trans s = .ok (-1) s' ∧
      (s'.inodes dp).dirOffset = (s.inodes dp).dirOffset ∧ (s'.inodes dp).size = (s.inodes dp).size ∧
      ((s'.inodes dp).dir = (s.inodes dp).dir ↔ d (strbuf E.geo name) ≠ none) := by
  refine ⟨_, dirlink_of_some E h name inum incLink trans, by simp, by simp, ?_⟩
  simp [h, insertOrKeep_eq_self_iff]

/-- `dirlink` of a fresh name changes no link count: the increments sit after its `return -1`.
A `dirunlink` of the name that follows, and returns, does run its decrement, so the inode the
entry names ends one link below where it started. -/
theorem dirlink_keeps_links {s : Sys} {dp : Nat} {d : DirIndex} (h : (s.inodes dp).dir = some d)
    {name : List UInt8} (hfresh : d (strbuf E.geo name) = none) (inum : Nat) (incLink trans : Bool) :
    ∃ s₁, dirlink E dp name inum incLink trans s = .ok (-1) s₁ ∧
      (∀ j, (s₁.inodes j).nlink = (s.inodes j).nlink ∧ (s₁.inodes j).ref = (s.inodes j).ref) ∧
      ∀ decLink trans' r s₂, dirunlink E dp name inum decLink trans' s₁ = .ok r s₂ →
        isDotDot E.geo name = false → inum ≠ dp →
        r = 0 ∧ (s₂.inodes inum).nlink = toShort ((s.inodes inum).nlink - 1) := by
  refine ⟨_, dirlink_of_some E h name inum incLink trans, fun j => ?_, ?_⟩
  · by_cases hj : j = dp <;> simp [Sys.setInode, hj]
  intro decLink trans' r s₂ hr hdot hne
  set key := strbuf E.geo name
  set d' := d.insertOrKeep key ⟨inum, (s.inodes dp).dirOffset⟩
  set s₁ := s.setInode dp { s.inodes dp with dir := some d' }
  have hd₁ : (s₁.inodes dp).dir = some d' := by simp [s₁]
  have hinit : onInode dp (dirInit E) s₁ = .ok () s₁ := by
    simpa using onInode_of_ok (s := s₁) (i := dp) (dirInit_of_some E (c := s₁.ctx dp) hd₁)
  have hk : d' key = some ⟨inum, (s.inodes dp).dirOffset⟩ := insertOrKeep_self _ hfresh
  simp only [dirunlink, SysM.bind_apply, hinit, SysM.get_apply, hd₁, Option.getD_some, hk,
    DirIndex.remove, DirIndex.insert, reduceCtorEq, if_false, Function.update_same, if_true,
    mapDir, SysM.modify_apply, hdot, Bool.not_false] at hr
  split_ifs at hr <;> simp only [SysM.bind_apply, SysM.modify_apply, SysM.pure_apply] at hr <;>
    split at hr <;> simp only [EStateM.Result.ok.injEq, reduceCtorEq] at hr <;>
    obtain ⟨rfl, rfl⟩ := hr <;> rename_i heq <;> obtain ⟨c, -, rfl⟩ := onInode_ok heq <;>
    exact ⟨rfl, by simp [Function.update_noteq hne, s₁, Inode.unlink]⟩

end Link

/-- An empty directory, inode 1, whose index is built: linking `"a"` to inode 5. -/
theorem dirlink_breaks_agreement_empty :
    let E : Env := ⟨⟨64, 1, 12, by decide⟩, 100, fun _ => 0⟩
    let s : Sys := ⟨fun _ => ⟨1, .dir, 0, 0, 1, 0, 0, fun _ => 0, some DirIndex.empty, 0, 1⟩,
      ⟨⟨fun _ => zeroBlock, fun _ => false, fun _ => zeroBlock⟩, fun _ => true,
        Transaction.empty⟩⟩
    ∃ s' d', dirlink E 1 [97] 5 false true s = .ok (-1) s' ∧
      (s'.inodes 1).dir = some d' ∧ ¬ DirAgree E.geo (s'.inodes 1) s'.fs.buf.data d' :=
  dirlink_breaks_agreement _ rfl rfl 5 false true

/-- An empty directory, inode 1, whose index is built: linking `"a"` to inode 5 returns -1 and
changes the index. -/
theorem dirlink_always_fails_empty :
    let E : Env := ⟨⟨64, 1, 12, by decide⟩, 100, fun _ => 0⟩
    let s : Sys := ⟨fun _ => ⟨1, .dir, 0, 0, 1, 0, 0, fun _ => 0, some DirIndex.empty, 0, 1⟩,
      ⟨⟨fun _ => zeroBlock, fun _ => false, fun _ => zeroBlock⟩, fun _ => true,
        Transaction.empty⟩⟩
    ∃ s', dirlink E 1 [97] 5 false true s = .ok (-1) s' ∧
      (s'.inodes 1).dirOffset = (s.inodes 1).dirOffset ∧ (s'.inodes 1).size = (s.inodes 1).size ∧
      ((s'.inodes 1).dir = (s.inodes 1).dir ↔ DirIndex.empty (strbuf E.geo [97]) ≠ none) :=
  dirlink_always_fails _ rfl [97] 5 false true

/-- The same directory: linking `"a"` to inode 5 leaves every link count. -/
theorem dirlink_keeps_links_empty :
    let E : Env := ⟨⟨64, 1, 12, by decide⟩, 100, fun _ => 0⟩
    let s : Sys := ⟨fun _ => ⟨1, .dir, 0, 0, 1, 0, 0, fun _ => 0, some DirIndex.empty, 0, 1⟩,
      ⟨⟨fun _ => zeroBlock, fun _ => false, fun _ => zeroBlock⟩, fun _ => true,
        Transaction.empty⟩⟩
    ∃ s₁, dirlink E 1 [97] 5 false true s = .ok (-1) s₁ ∧
      (∀ j, (s₁.inodes j).nlink = (s.inodes j).nlink ∧ (s₁.inodes j).ref = (s.inodes j).ref) ∧
      ∀ decLink trans' r s₂, dirunlink E 1 [97] 5 decLink trans' s₁ = .ok r s₂ →
        isDotDot E.geo [97] = false → 5 ≠ 1 →
        r = 0 ∧ (s₂.inodes 5).nlink = toShort ((s.inodes 5).nlink - 1) :=
  dirlink_keeps_links _ rfl rfl 5 false true

end Sv6Fs
