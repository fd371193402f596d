import Sv6Fs.Sys

/-! # Link counts and the references they hold

`inode::init` reads the inode's `dinode` through the buffer cache and takes two references:
one for a positive link count, and the one `mfs_interface::free_inode` drops later, which
keeps the inode alive after its last unlink until its open files are closed. `inode::link`
and `inode::unlink` move the `short` count `nlink_`, taking the count's reference when it
becomes 1 and dropping it when it becomes 0. `iupdate` stores the fields back
(`putDinode`), so `init` after a remount reads what `iupdate` wrote.

* `Inode.init_putDinode`: `init` from the block `iupdate` wrote reads back every field, each
  as wide as the `dinode` stores it; a count that is a `short` reads back unchanged.
* `Inode.init_refsHeld`: whatever the on-disk count, `init` leaves the inode holding the
  references its count accounts for (`RefsHeld`).
* `LinkOp.apply_refsHeld_iff`: `link` keeps that accounting exactly when the count is not
  32767, and `unlink` exactly when it is not -32768. At those counts the `short` wraps:
  `link` makes the count -32768 and keeps the count's reference, `unlink` makes it 32767
  and takes none.
* `heldThroughout_iff_noWrap`, `init_linkRun_refsHeld`: over any run of calls from `init`,
  the accounting holds at every step exactly when no call wraps the count
  (`init_linkRun_refsHeld_at_32767` is the 32768th link).
-/

namespace Sv6Fs

/-! ## Reading a `dinode` -/

/-- The bytes `pos .. pos + width - 1` of `b`, read as a number least significant first. -/
def getLE (b : Block) (pos : Nat) : (width : Nat) → Nat
  | 0 => 0
  | w + 1 => (b pos).toNat + 256 * getLE b (pos + 1) w

/-- The type an on-disk code reads as. `fs.cc` compares a type only with 0, `T_DIR` and
`T_DEV`, so a code that is none of the four behaves as `T_FILE` there and reads as `file`. -/
def IType.ofCode (x : Int) : IType :=
  if x = 0 then .free else if x = 1 then .dir else if x = 3 then .dev else .file

/-- `inode::init`: the fields of inode `ip.inum` from its slot of the inode-table block `blk`
(`type`, `major`, `minor` and `nlink` are `short`s, `size`, `gen` and the `NDIRECT + 2`
addresses `u32`s), a reference for a positive link count, and the reference
`free_inode` drops. -/
def Inode.init (G : Geometry) (blk : Block) (ip : Inode) : Inode :=
  let base := ip.inum % G.ipb * G.dinodeSize
  let nlink := toShort (getLE blk (base + 6) 2)
  { ip with
    type := IType.ofCode (toShort (getLE blk base 2))
    major := toShort (getLE blk (base + 2) 2)
    minor := toShort (getLE blk (base + 4) 2)
    nlink := nlink
    size := getLE blk (base + 8) 4
    gen := getLE blk (base + 12) 4
    addrs := fun k => if k < G.ndirect + 2 then getLE blk (base + 16 + 4 * k) 4 else 0
    ref := ip.ref + (if 0 < nlink then 1 else 0) + 1 }

/-- A type code as `putDinode` stores it reads back as the type. -/
theorem IType.ofCode_stored (t : IType) : IType.ofCode (toShort ((t.code % 256 ^ 2 : Nat) : Int)) = t := by
  cases t <;> rfl

/-! ## Stores and loads -/

/-- A load reads only the bytes it covers. -/
theorem getLE_congr {b b' : Block} {pos w : Nat} (h : ∀ k, pos ≤ k → k < pos + w → b' k = b k) :
    getLE b' pos w = getLE b pos w := by
  induction w generalizing pos with
  | zero => rfl
  | succ w ih =>
    rw [getLE, getLE, h pos le_rfl (by omega), @ih (pos + 1) fun k h₁ h₂ => h k (by omega) (by omega)]

/-- A load of the bytes a store covered reads the stored value, cut to their width. -/
theorem getLE_putLE (b : Block) (pos w v : Nat) : getLE (putLE b pos w v) pos w = v % 256 ^ w := by
  induction w generalizing pos v with
  | zero => simp [getLE, Nat.mod_one]
  | succ w ih =>
    have hrest : getLE (putLE b pos (w + 1) v) (pos + 1) w = getLE (putLE b (pos + 1) w (v / 256))
        (pos + 1) w := getLE_congr fun k h₁ h₂ => by
      have hk : k - pos = k - (pos + 1) + 1 := by omega
      simp only [putLE, if_pos (And.intro (by omega : pos ≤ k) (by omega : k < pos + (w + 1))),
        if_pos (And.intro h₁ h₂), hk, Nat.pow_succ, Nat.div_div_eq_div_mul, Nat.mul_comm]
    simp only [getLE, hrest, ih, putLE, le_refl, Nat.lt_add_right_iff_pos, Nat.succ_pos, and_self,
      if_true, Nat.sub_self, pow_zero, Nat.div_one, uint8_toNat_ofNat, pow_succ']
    rw [Nat.mod_mul]

/-- A load of bytes a store did not cover reads what was there. -/
theorem getLE_putLE_of_disjoint (b : Block) {pos w pos' w' : Nat} (v : Nat)
    (h : pos' + w' ≤ pos ∨ pos + w ≤ pos') : getLE (putLE b pos' w' v) pos w = getLE b pos w :=
  getLE_congr fun k h₁ h₂ => if_neg (by omega)

/-- The address stores of `putDinode` leave a load of bytes none of them covers. -/
theorem getLE_foldl_of_disjoint (f : Nat → Nat) (base : Nat) {pos w : Nat} :
    ∀ (ks : List Nat) (b : Block), (∀ j ∈ ks, pos + w ≤ base + 16 + 4 * j ∨ base + 20 + 4 * j ≤ pos) →
      getLE (ks.foldl (fun b j => putLE b (base + 16 + 4 * j) 4 (f j)) b) pos w = getLE b pos w
  | [], _, _ => rfl
  | j :: ks, b, h => by
    rw [List.foldl_cons, getLE_foldl_of_disjoint f base ks _ fun j' hj' => h j' (.tail _ hj'),
      getLE_putLE_of_disjoint _ _ (by have := h j (.head _); omega)]

theorem getLE_foldl_of_le (f : Nat → Nat) {base pos w : Nat} (ks : List Nat) (b : Block)
    (h : pos + w ≤ base + 16) :
    getLE (ks.foldl (fun b j => putLE b (base + 16 + 4 * j) 4 (f j)) b) pos w = getLE b pos w :=
  getLE_foldl_of_disjoint f base ks b fun _ _ => .inl (by omega)

/-- A load of address `k` after the address stores reads the address, cut to a `u32`. -/
theorem getLE_foldl_of_mem (f : Nat → Nat) (base : Nat) {k : Nat} :
    ∀ (ks : List Nat) (b : Block), k ∈ ks →
      getLE (ks.foldl (fun b j => putLE b (base + 16 + 4 * j) 4 (f j)) b) (base + 16 + 4 * k) 4 =
        f k % 4294967296
  | j :: ks, b, hk => by
    rw [List.foldl_cons]
    by_cases hks : k ∈ ks
    · exact getLE_foldl_of_mem f base ks _ hks
    · obtain rfl : k = j := by simpa [hks] using hk
      rw [getLE_foldl_of_disjoint f base ks _ fun j' hj' => by
        have : j' ≠ k := fun h => hks (h ▸ hj'); omega]
      exact getLE_putLE _ _ _ _

/-! ## The round trip through the inode table -/

theorem toShort_emod (x : Int) : toShort (x % 65536) = toShort x := by
  unfold toShort; omega

/-- A `short` as `putDinode` stores it reads back as the `short` it was. -/
theorem toShort_stored (x : Int) : toShort (((x % 65536).toNat % 256 ^ 2 : Nat) : Int) = toShort x := by
  unfold toShort; omega

/-- `init` from the block `iupdate` wrote: every field reads back as the `dinode` stores it,
the `short`s through `toShort`, the `u32`s cut to 32 bits, and the addresses past
`NDIRECT + 1` as 0. -/
theorem Inode.init_putDinode (G : Geometry) (blk : Block) (ip : Inode) :
    ip.init G (putDinode G blk ip) =
      { ip with
        major := toShort ip.major
        minor := toShort ip.minor
        nlink := toShort ip.nlink
        size := ip.size % 4294967296
        gen := ip.gen % 4294967296
        addrs := fun k => if k < G.ndirect + 2 then ip.addrs k % 4294967296 else 0
        ref := ip.ref + (if 0 < toShort ip.nlink then 1 else 0) + 1 } := by
  simp only [Inode.init, putDinode]
  simp (disch := omega) only [getLE_foldl_of_le, getLE_putLE_of_disjoint, getLE_putLE]
  simp only [toShort_stored, IType.ofCode_stored, Inode.mk.injEq, true_and, and_true]
  refine ⟨rfl, rfl, funext fun k => ?_⟩
  split_ifs with hk
  · exact getLE_foldl_of_mem _ _ _ _ (List.mem_range.2 hk)
  · rfl

/-! ## The references a link count holds -/

/-- A value a `short` holds. -/
def IsShort (x : Int) : Prop := -32768 ≤ x ∧ x < 32768

instance (x : Int) : Decidable (IsShort x) := inferInstanceAs (Decidable (_ ∧ _))

theorem toShort_isShort (x : Int) : IsShort (toShort x) := by
  unfold IsShort toShort; omega

theorem toShort_of_isShort {x : Int} (h : IsShort x) : toShort x = x := by
  unfold IsShort toShort at *; omega

/-- The spec's accounting for an inode with `srefs` outstanding references: one more for a
positive link count, and the one `free_inode` drops. -/
def Inode.RefsHeld (srefs : Nat) (ip : Inode) : Prop :=
  ip.ref = srefs + (if 0 < ip.nlink then 1 else 0) + 1

instance (srefs : Nat) (ip : Inode) : Decidable (ip.RefsHeld srefs) :=
  inferInstanceAs (Decidable (_ = _))

/-- `init` takes the references the count it reads accounts for, whatever that count. -/
theorem Inode.init_refsHeld (G : Geometry) (blk : Block) (ip : Inode) :
    (ip.init G blk).RefsHeld ip.ref :=
  rfl

theorem Inode.init_isShort (G : Geometry) (blk : Block) (ip : Inode) :
    IsShort (ip.init G blk).nlink :=
  toShort_isShort _

/-- The two calls that move a link count. -/
inductive LinkOp where
  | link
  | unlink
  deriving DecidableEq, Repr

namespace LinkOp

def apply : LinkOp → Inode → Inode
  | .link => Inode.link
  | .unlink => Inode.unlink

/-- The count at which the call wraps the `short`. -/
def wrapsAt : LinkOp → Int
  | .link => 32767
  | .unlink => -32768

theorem apply_isShort (o : LinkOp) (ip : Inode) : IsShort (o.apply ip).nlink := by
  cases o <;> exact toShort_isShort _

/-- One call keeps the accounting exactly when it does not wrap the count. -/
theorem apply_refsHeld_iff {srefs : Nat} {ip : Inode} (h : ip.RefsHeld srefs)
    (hs : IsShort ip.nlink) (o : LinkOp) : (o.apply ip).RefsHeld srefs ↔ ip.nlink ≠ o.wrapsAt := by
  unfold Inode.RefsHeld at h ⊢
  unfold IsShort at hs
  cases o with
  | link =>
    simp only [apply, wrapsAt, Inode.link, toShort]
    split_ifs at h ⊢ <;> omega
  | unlink =>
    simp only [apply, wrapsAt, Inode.unlink, toShort]
    split_ifs at h ⊢ <;> omega

end LinkOp

/-- Every call of `ops` on `ip`, one after another. -/
def linkRun (ops : List LinkOp) (ip : Inode) : Inode :=
  ops.foldl (fun ip o => o.apply ip) ip

/-- `ip` and the inode after each call of `ops` hold the references their counts account
for. -/
def HeldThroughout (srefs : Nat) : List LinkOp → Inode → Prop
  | [], ip => ip.RefsHeld srefs
  | o :: ops, ip => ip.RefsHeld srefs ∧ HeldThroughout srefs ops (o.apply ip)

/-- No call of `ops`, made from `ip` on, finds the count at the value where it wraps. -/
def NoWrap : List LinkOp → Inode → Prop
  | [], _ => True
  | o :: ops, ip => ip.nlink ≠ o.wrapsAt ∧ NoWrap ops (o.apply ip)

instance decHeldThroughout (srefs : Nat) : (ops : List LinkOp) → (ip : Inode) →
    Decidable (HeldThroughout srefs ops ip)
  | [], ip => inferInstanceAs (Decidable (ip.RefsHeld srefs))
  | o :: ops, ip =>
    have := decHeldThroughout srefs ops (o.apply ip)
    inferInstanceAs (Decidable (_ ∧ _))

instance decNoWrap : (ops : List LinkOp) → (ip : Inode) → Decidable (NoWrap ops ip)
  | [], _ => inferInstanceAs (Decidable True)
  | o :: ops, ip =>
    have := decNoWrap ops (o.apply ip)
    inferInstanceAs (Decidable (_ ∧ _))

theorem HeldThroughout.refsHeld {srefs : Nat} {ip : Inode} :
    ∀ {ops : List LinkOp}, HeldThroughout srefs ops ip → ip.RefsHeld srefs
  | [], h => h
  | _ :: _, h => h.1

/-- The run lemma: from an inode that holds its references, a run of calls keeps holding
them at every step exactly when no call wraps the count. -/
theorem heldThroughout_iff_noWrap {srefs : Nat} :
    ∀ {ops : List LinkOp} {ip : Inode}, ip.RefsHeld srefs → IsShort ip.nlink →
      (HeldThroughout srefs ops ip ↔ NoWrap ops ip)
  | [], _, h, _ => iff_of_true h trivial
  | o :: ops, ip, h, hs => by
    have hstep := o.apply_refsHeld_iff h hs
    by_cases hw : ip.nlink = o.wrapsAt
    · exact iff_of_false (fun h' => hstep.1 h'.2.refsHeld hw) fun h' => h'.1 hw
    · simp only [HeldThroughout, NoWrap, h, hw, true_and, ne_eq, not_false_eq_true,
        heldThroughout_iff_noWrap (hstep.2 hw) (o.apply_isShort ip)]

theorem linkRun_isShort : ∀ {ops : List LinkOp} {ip : Inode}, IsShort ip.nlink →
    IsShort (linkRun ops ip).nlink
  | [], _, hs => hs
  | o :: ops, ip, _ => @linkRun_isShort ops (o.apply ip) (o.apply_isShort ip)

/-- An inode that `init` read from any block, then any run of `link` and `unlink` on it: it
holds the references its count accounts for at every step exactly when no call wraps the
`short` count, and `init` after `iupdate` reads back the count the run left. -/
theorem init_linkRun_refsHeld (G : Geometry) (blk : Block) (ip : Inode) (ops : List LinkOp) :
    (HeldThroughout ip.ref ops (ip.init G blk) ↔ NoWrap ops (ip.init G blk)) ∧
      ∀ blk' : Block, ((linkRun ops (ip.init G blk)).init G
        (putDinode G blk' (linkRun ops (ip.init G blk)))).nlink = (linkRun ops (ip.init G blk)).nlink :=
  ⟨heldThroughout_iff_noWrap (ip.init_refsHeld G blk) (ip.init_isShort G blk), fun blk' => by
    rw [Inode.init_putDinode]
    exact toShort_of_isShort (linkRun_isShort (ip.init_isShort G blk))⟩

/-- Inode 1 read with the count 32767, and linked once: the count wraps to -32768 while the
inode keeps the count's reference, and `init` after `iupdate` reads -32768 and takes none. -/
theorem init_linkRun_refsHeld_at_32767 :
    let G : Geometry := ⟨512, 10, 14, by decide⟩
    let blk : Block := fun k => if k = 70 then 255 else if k = 71 then 127 else 0
    let ip : Inode := ⟨1, .free, 0, 0, 0, 0, 0, fun _ => 0, none, 0, 1⟩
    let ip₁ := linkRun [.link] (ip.init G blk)
    (ip.init G blk).nlink = 32767 ∧ ¬ HeldThroughout 1 [.link] (ip.init G blk) ∧
      ip₁.nlink = -32768 ∧ ip₁.ref = 3 ∧ (ip₁.init G (putDinode G blk ip₁)).nlink = -32768 :=
  ⟨by decide, fun h => ((init_linkRun_refsHeld _ _ _ [.link]).1.1 h).1 (by decide), by decide,
    by decide, ((init_linkRun_refsHeld _ _ _ [.link]).2 _).trans (by decide)⟩

end Sv6Fs
