import Sv6Fs.DenseWrite

/-! # Files backed by blocks

A client of one inode that writes as `itrunc`'s comment expects ("after `itrunc()` returns,
appends will occur at `offset`"): it writes from no further than the bytes it has backed
with blocks, sets sizes within them, reads, and truncates. Its calls are `writei` (with no
write-back), `update_size`, `readi` and `itrunc` (`ExtOp.call`).

The abstract model (`Abs.Backed`) is the file together with the length of its prefix backed
by blocks (`ext`): a write of `cnt` bytes from within the extent extends it to `off + cnt`,
and a truncation leaves `offset` backed. On the system state (`Packed`) the inode's tree has
no holes and every logical block below the extent is mapped; so `readi` never reaches the
allocation in `bmap` (which, for a hole, takes a block outside any transaction and panics
when none is free) and changes nothing.

* `ExtOp.call_backed`: a call that fits returns, is a step of the abstract model, and keeps
  the file invariant and `Packed`; the other files do not change.
* `Reach.backed`: along every run of such calls from a packed state the invariants hold,
  and the next call that fits returns: no run of the client reaches a panic.
-/

namespace Sv6Fs

open Abs

/-- A call on one inode of the client: `writei` with no write-back, `update_size`, `readi`,
and `itrunc`. -/
inductive ExtOp where
  | write (src : Nat → UInt8) (off n : Nat) (trans : Bool)
  | setSize (size : Nat) (trans : Bool)
  | read (dst : Nat → UInt8) (off n : Nat)
  | trunc (offset : Nat)

/-- A call on inode `i`, on the system state; the first three are the calls of the byte-array
refinement. -/
def ExtOp.call (E : Env) (i : Nat) : ExtOp → SysM FileRet
  | .write src off n t => FileOp.call E (.write i src off n t)
  | .setSize size t => FileOp.call E (.setSize i size t)
  | .read dst off n => FileOp.call E (.read i dst off n)
  | .trunc offset => (fun _ => FileRet.done) <$> onInode i (itrunc E.geo offset)

namespace Abs

/-- A file and the length of its prefix that blocks back. -/
structure Backed where
  file : AFile
  ext : Nat

/-- One call on a backed file. A write of some prefix of its request, reported by its count
(or -1 for none), backs the bytes it wrote; a truncation below the size gives back the
storage from the block boundary `BLOCKROUNDUP(offset) * BSIZE` on and leaves `offset` bytes
backed; one at or past the size changes nothing. -/
inductive Backed.Step (bsize : Nat) : Backed → ExtOp → FileRet → Backed → Prop
  | write {e : Backed} {src : Nat → UInt8} {off n : Nat} {t : Bool} {r : Int} (cnt : Nat)
      (hcnt : cnt ≤ n) (hr : r = toInt32 cnt ∨ cnt = 0 ∧ r = -1) :
      Step bsize e (.write src off n t) (.count r) ⟨e.file.write src off cnt, max e.ext (off + cnt)⟩
  | setSize {e : Backed} {size : Nat} {t : Bool} :
      Step bsize e (.setSize size t) .done ⟨e.file.setSize size, e.ext⟩
  | read {e : Backed} {dst : Nat → UInt8} {off n : Nat} :
      Step bsize e (.read dst off n) (.data (e.file.read dst off n)) e
  | trunc {e : Backed} {offset : Nat} (h : offset < e.file.size) :
      Step bsize e (.trunc offset) .done
        ⟨e.file.truncate offset (blockRoundup bsize offset * bsize), offset⟩
  | truncPast {e : Backed} {offset : Nat} (h : e.file.size ≤ offset) :
      Step bsize e (.trunc offset) .done e

end Abs

/-- The calls the client makes of a backed file, on an inode of type `ty`: writes from within
the extent and sizes within it, reads of an inode that is no device, and truncations whose
first freed block lies in the tiers; writes and reads of fewer than `2^31` bytes, so that
the `int` they return is their count. -/
def ExtOp.Fits (G : Geometry) (ty : IType) (e : Backed) : ExtOp → Prop
  | .write _ off n _ => off ≤ e.ext ∧ n < 2147483648
  | .setSize size _ => size ≤ e.ext
  | .read _ _ n => n < 2147483648 ∧ ty ≠ .dev
  | .trunc offset => offset < e.file.size → blockRoundup G.bsize offset < G.maxfile

instance (G : Geometry) (ty : IType) (e : Backed) : (o : ExtOp) → Decidable (o.Fits G ty e)
  | .write _ off n _ => inferInstanceAs (Decidable (off ≤ e.ext ∧ n < 2147483648))
  | .setSize size _ => inferInstanceAs (Decidable (size ≤ e.ext))
  | .read _ _ n => inferInstanceAs (Decidable (n < 2147483648 ∧ ty ≠ .dev))
  | .trunc offset => inferInstanceAs
      (Decidable (offset < e.file.size → blockRoundup G.bsize offset < G.maxfile))

/-- Below `2^31` bytes the `int` a write returns fixes its count. -/
theorem count_unique {n cnt cnt' : Nat} {r : Int} (hn : n < 2147483648) (h : cnt ≤ n)
    (h' : cnt' ≤ n) (hr : r = toInt32 cnt ∨ cnt = 0 ∧ r = -1)
    (hr' : r = toInt32 cnt' ∨ cnt' = 0 ∧ r = -1) : cnt = cnt' := by
  rw [toInt32_of_lt (by omega)] at hr
  rw [toInt32_of_lt (by omega)] at hr'
  omega

/-- The abstract model is deterministic on the calls that fit: the result fixes the next
backed file. -/
theorem Abs.Backed.Step.det {bsize : Nat} {G : Geometry} {ty : IType} {e e₁ e₂ : Backed} {o : ExtOp}
    {r : FileRet} (ho : o.Fits G ty e) (h₁ : Backed.Step bsize e o r e₁)
    (h₂ : Backed.Step bsize e o r e₂) : e₁ = e₂ := by
  cases h₁ with
  | write cnt hcnt hr =>
    cases h₂ with
    | write cnt' hcnt' hr' => rw [count_unique ho.2 hcnt hcnt' hr hr']
  | setSize => cases h₂; rfl
  | read => cases h₂; rfl
  | trunc h =>
    cases h₂ with
    | trunc => rfl
    | truncPast h' => omega
  | truncPast h =>
    cases h₂ with
    | trunc h' => omega
    | truncPast => rfl

/-! ## The backed file on the system state -/

section Packed

variable {E : Env} {Meta : Nat → Prop} {s : Sys} {i : Nat} {e : Backed}

/-- Inode `i` of `s` holds the backed file `e`: its bytes are `e`'s, its tree has no holes,
every logical block below the extent is mapped, and the size is within the extent. -/
structure Packed (E : Env) (i : Nat) (s : Sys) (e : Backed) : Prop where
  file : s.files E i = e.file
  dense : Dense E.geo (s.inodes i) s.fs.buf.data
  backed : ∀ p < e.ext, mapped E.geo (s.inodes i) s.fs.buf.data (p / E.geo.bsize) ≠ 0
  size : e.file.size ≤ e.ext

theorem Packed.size_le (hp : Packed E i s e) : (s.inodes i).size ≤ e.ext := by
  rw [← Sys.files_size, hp.file]
  exact hp.size

/-- A mapped block lies in the tiers, so the extent does too. -/
theorem Packed.ext_le (hp : Packed E i s e) : e.ext ≤ E.geo.maxfile * E.geo.bsize := by
  rcases Nat.eq_zero_or_pos e.ext with h | h
  · omega
  have hm := (mapped_of_ne_zero E.geo (hp.backed (e.ext - 1) (by omega))).1
  have := (Nat.div_lt_iff_lt_mul E.geo.bsize_pos).1 hm
  omega

/-- Every block before the one of an offset within the extent is mapped. -/
theorem Packed.mapped_before (hp : Packed E i s e) {off : Nat} (hoff : off ≤ e.ext) :
    ∀ m < off / E.geo.bsize, mapped E.geo (s.inodes i) s.fs.buf.data m ≠ 0 := fun m hm => by
  have h₁ : (m + 1) * E.geo.bsize ≤ off := (Nat.le_div_iff_mul_le E.geo.bsize_pos).1 hm
  have h₂ := hp.backed (m * E.geo.bsize) (by rw [Nat.succ_mul] at h₁; have := E.geo.bsize_pos; omega)
  rwa [Nat.mul_div_cancel m E.geo.bsize_pos] at h₂

/-- What a call that returned left: the file invariant, inode `i` holding the backed file
`e'`, the other files as they were, and every inode's type. -/
structure AfterCall (E : Env) (Meta : Nat → Prop) (i : Nat) (s s' : Sys) (e' : Backed) : Prop where
  inv : FilesInv E Meta s'
  packed : Packed E i s' e'
  files : s'.files E = Function.update (s.files E) i e'.file
  type : ∀ j, (s'.inodes j).type = (s.inodes j).type

/-- A call that changes nothing. -/
theorem AfterCall.refl (hs : FilesInv E Meta s) (hp : Packed E i s e) : AfterCall E Meta i s s e :=
  ⟨hs, hp, by rw [← hp.file, Function.update_eq_self], fun _ => rfl⟩

/-! ## One call -/

/-- `update_size` writes the inode table block alone, so the tree stays as it was. -/
theorem updateSize_slots (hs : FilesInv E Meta s) (size : Nat) (trans : Bool) :
    ∃ c', updateSize E size trans (s.ctx i) = .ok ⟨⟩ c' ∧ ∀ τ : Slot, τ.Valid E.geo →
      slotVal E.geo c'.ip c'.fs.buf.data τ = slotVal E.geo (s.inodes i) s.fs.buf.data τ := by
  set s₁ := s.put i ⟨{ s.inodes i with size := size }, s.fs⟩
  have hs₁ : Owned E Meta s₁ :=
    Owned.put_addrs (c := s.ctx i) (by rw [Sys.put_self]; exact hs.owned) rfl
  obtain ⟨c', e, -, -, -, -, hslot⟩ := hs₁.iupdate (i := i) (by simpa [s₁] using hs.iblock i) trans
  have hu : updateSize E size trans (s.ctx i) = iupdate E.geo trans (s₁.ctx i) := by
    simp only [updateSize, FsM.bind_apply, FsM.modify_apply, s₁, Sys.put_ctx]
    rfl
  refine ⟨c', hu.trans e, fun τ hτ => ?_⟩
  rw [hslot τ hτ]
  simp only [s₁, Sys.put_inodes, Function.update_same, Sys.put_fs]
  exact slotVal_of_addrs E.geo rfl _ τ

/-- `readi` of a packed file reads mapped blocks only, so it returns and changes nothing. -/
theorem Packed.readi_keeps (hp : Packed E i s e) (hdev : (s.inodes i).type ≠ .dev)
    (dst : Nat → UInt8) (off n : Nat) : ∃ x, readi E dst off n (s.ctx i) = .ok x (s.ctx i) := by
  by_cases hret : (s.inodes i).size < off ∨ u32 (off + n) < off
  · exact ⟨_, readi_ret (.inr hret)⟩
  have hn' : off + (if (s.ctx i).ip.size < off + n then (s.ctx i).ip.size - off else n) ≤
      (s.inodes i).size := by
    simp only [Sys.ctx_ip]
    split <;> omega
  rw [readi_eq hdev hret, FsM.bind_apply, readiLoop_of_mapped E _ dst off 0 _ (Nat.zero_le _)
    (Nat.zero_le _) fun p _ h₂ => hp.backed p (by have := hp.size_le; omega)]
  exact ⟨_, rfl⟩

/-- `itrunc` to an offset at or past the size returns at once. -/
theorem itrunc_of_le {G : Geometry} {c : Ctx} {offset : Nat} (h : c.ip.size ≤ offset) :
    itrunc G offset c = .ok () c := by
  simp [itrunc, h]

/-- A write from within the extent writes a prefix of its request into mapped blocks and
backs it. -/
theorem Packed.write (hE : E.Sane) (hs : FilesInv E Meta s) (hp : Packed E i s e)
    (src : Nat → UInt8) {off n : Nat} (t : Bool) (hoff : off ≤ e.ext) (hn : n < 2147483648) :
    ∃ r s' e', (ExtOp.write src off n t).call E i s = .ok r s' ∧
      Backed.Step E.geo.bsize e (.write src off n t) r e' ∧ AfterCall E Meta i s s' e' := by
  have hoff' := hoff.trans hp.ext_le
  obtain ⟨r, c', he, hs', ⟨a, hip⟩, -, cnt, hcn, hr, -, hf⟩ := writei_spec hE hs src n t false hoff'
  obtain ⟨r', c'', he', hd', hkeep, cnt', hcn', hr', hwrote⟩ :=
    hp.dense.writei_ok hE src n t false (hs.owned.wf i) hoff' (hp.mapped_before hoff)
  rw [he] at he'
  cases he'
  obtain rfl := count_unique hn hcn' hcn hr' hr
  refine ⟨.count r, s.put i c', _, by simp [ExtOp.call, FileOp.call, onInode_of_ok he],
    .write cnt' hcn hr, ⟨hs', ⟨by rw [hf, Function.update_same, hp.file], by simpa using hd',
      fun p hp' => ?_, hp.size.trans (le_max_left _ _)⟩, by rw [hf, hp.file],
      Sys.type_put (by rw [hip])⟩⟩
  simp only [Sys.put_inodes, Function.update_same, Sys.put_fs]
  rcases lt_max_iff.1 hp' with h | h
  · rw [hkeep _ (hp.backed p h)]
    exact hp.backed p h
  · rcases Nat.lt_or_ge p e.ext with h' | h'
    · rw [hkeep _ (hp.backed p h')]
      exact hp.backed p h'
    · exact hwrote p (by omega) h

/-- A size within the extent is set with the tree unchanged. -/
theorem Packed.setSize (hs : FilesInv E Meta s) (hp : Packed E i s e) {size : Nat} (t : Bool)
    (hsize : size ≤ e.ext) :
    ∃ r s' e', (ExtOp.setSize size t).call E i s = .ok r s' ∧
      Backed.Step E.geo.bsize e (.setSize size t) r e' ∧ AfterCall E Meta i s s' e' := by
  obtain ⟨c', he, hs', hip, -, hf⟩ := updateSize_spec hs t (hsize.trans hp.ext_le) (i := i)
  obtain ⟨c'', he', hslot⟩ := updateSize_slots hs size t (i := i)
  rw [he] at he'
  cases he'
  refine ⟨.done, s.put i c', _, by simp [ExtOp.call, FileOp.call, onInode_of_ok he], .setSize,
    ⟨hs', ⟨by rw [hf, Function.update_same, hp.file], by simpa using hp.dense.of_slots hslot,
      fun p h => by simpa [mapped_of_slots hslot] using hp.backed p h, hsize⟩,
      by rw [hf, hp.file], Sys.type_put (by rw [hip])⟩⟩

/-- A read returns what the abstract read returns and changes nothing. -/
theorem Packed.read (hE : E.Sane) (hs : FilesInv E Meta s) (hp : Packed E i s e)
    (dst : Nat → UInt8) (off : Nat) {n : Nat} (hn : n < 2147483648)
    (hdev : (s.inodes i).type ≠ .dev) :
    ∃ r s' e', (ExtOp.read dst off n).call E i s = .ok r s' ∧
      Backed.Step E.geo.bsize e (.read dst off n) r e' ∧ AfterCall E Meta i s s' e' := by
  obtain ⟨x, hx⟩ := hp.readi_keeps hdev dst off n
  rcases readi_spec hE hs dst off hdev hn with ⟨c', he, -⟩ | ⟨c', he, -⟩ <;> rw [hx] at he <;>
    cases he
  rw [hp.file] at hx
  exact ⟨_, s, e, by simp [ExtOp.call, FileOp.call, onInode_of_ok hx], .read, .refl hs hp⟩

/-- A truncation below the size whose first freed block lies in the tiers gives back the
blocks from that one on and leaves `offset` bytes backed; one at or past the size returns at
once. -/
theorem Packed.trunc (hs : FilesInv E Meta s) (hp : Packed E i s e) {offset : Nat}
    (hfit : offset < e.file.size → blockRoundup E.geo.bsize offset < E.geo.maxfile) :
    ∃ r s' e', (ExtOp.trunc offset).call E i s = .ok r s' ∧
      Backed.Step E.geo.bsize e (.trunc offset) r e' ∧ AfterCall E Meta i s s' e' := by
  have hsz : (s.inodes i).size = e.file.size := by rw [← Sys.files_size, hp.file]
  by_cases h : offset < e.file.size
  · have htf : truncFrom E.geo offset = blockRoundup E.geo.bsize offset := if_pos (hfit h)
    obtain ⟨c', he, hs', hd', -, hty, hmap, hf⟩ := hs.itrunc_effect hp.dense (hsz ▸ h)
    refine ⟨.done, s.put i c', _, by simp [ExtOp.call, onInode_of_ok he], .trunc h,
      ⟨hs', ⟨by rw [hf, Function.update_same, hp.file, htf], by simpa using hd',
        fun p hp' => ?_, le_rfl⟩, by rw [hf, hp.file, htf], Sys.type_put hty⟩⟩
    change p < offset at hp'
    -- a byte below `offset` lies before the first freed block
    have hlt : ¬ truncFrom E.geo offset ≤ p / E.geo.bsize := by
      rw [htf, blockRoundup_le_iff E.geo.bsize_pos]
      have := Nat.div_mul_le_self p E.geo.bsize
      omega
    simp only [Sys.put_inodes, Function.update_same, Sys.put_fs]
    rw [hmap, if_neg hlt]
    exact hp.backed p (by have := hp.size; omega)
  · refine ⟨.done, s, e, ?_, .truncPast (not_lt.1 h), .refl hs hp⟩
    simp [ExtOp.call, onInode_of_ok (itrunc_of_le (c := s.ctx i) (G := E.geo) (hsz ▸ not_lt.1 h))]

/-- One call that fits returns, is a step of the abstract model, and keeps the file
invariant and the backed file; the other files and every type stay. -/
theorem ExtOp.call_backed (hE : E.Sane) (hs : FilesInv E Meta s) (hp : Packed E i s e)
    {o : ExtOp} (ho : o.Fits E.geo (s.inodes i).type e) :
    ∃ r s' e', o.call E i s = .ok r s' ∧ Backed.Step E.geo.bsize e o r e' ∧
      AfterCall E Meta i s s' e' := by
  cases o with
  | write src off n t => exact hp.write hE hs src t ho.1 ho.2
  | setSize size t => exact hp.setSize hs t ho
  | read dst off n => exact hp.read hE hs dst off ho.1 ho.2
  | trunc offset => exact hp.trunc hs ho

end Packed

/-! ## Runs -/

/-- The system states and backed files the client reaches from `(s₀, e₀)`: each call fits
the backed file, returns, and moves it by a step of the abstract model. -/
inductive Reach (E : Env) (i : Nat) (s₀ : Sys) (e₀ : Backed) : Sys → Backed → Prop
  | init : Reach E i s₀ e₀ s₀ e₀
  | call {s s' : Sys} {e e' : Backed} {o : ExtOp} {r : FileRet} : Reach E i s₀ e₀ s e →
      o.Fits E.geo (s.inodes i).type e → o.call E i s = .ok r s' →
      Backed.Step E.geo.bsize e o r e' → Reach E i s₀ e₀ s' e'

section Run

variable {E : Env} {Meta : Nat → Prop} {i : Nat} {s₀ : Sys} {e₀ : Backed}

/-- Every state the client reaches from a packed state with the file invariant keeps both,
changes no other file and no type, and the next call that fits returns: no run of the
client reaches a panic, and `readi` never allocates. -/
theorem Reach.backed (hE : E.Sane) (hs₀ : FilesInv E Meta s₀) (hp₀ : Packed E i s₀ e₀)
    {s : Sys} {e : Backed} (h : Reach E i s₀ e₀ s e) :
    FilesInv E Meta s ∧ Packed E i s e ∧ (∀ j, j ≠ i → s.files E j = s₀.files E j) ∧
      (∀ j, (s.inodes j).type = (s₀.inodes j).type) ∧
      ∀ o : ExtOp, o.Fits E.geo (s.inodes i).type e →
        ∃ r s' e', o.call E i s = .ok r s' ∧ Backed.Step E.geo.bsize e o r e' := by
  have progress : ∀ {s : Sys} {e : Backed}, FilesInv E Meta s → Packed E i s e →
      ∀ o : ExtOp, o.Fits E.geo (s.inodes i).type e →
        ∃ r s' e', o.call E i s = .ok r s' ∧ Backed.Step E.geo.bsize e o r e' :=
    fun hs hp o ho =>
      let ⟨r, s', e', hc, hst, _⟩ := ExtOp.call_backed hE hs hp ho
      ⟨r, s', e', hc, hst⟩
  induction h with
  | init => exact ⟨hs₀, hp₀, fun _ _ => rfl, fun _ => rfl, progress hs₀ hp₀⟩
  | call _ ho hc hst ih =>
    obtain ⟨hs, hp, hfiles, htype, -⟩ := ih
    obtain ⟨r₁, s₁, e₁, hc₁, hst₁, hafter⟩ := ExtOp.call_backed hE hs hp ho
    rw [hc] at hc₁
    cases hc₁
    obtain rfl := hst.det ho hst₁
    refine ⟨hafter.inv, hafter.packed, fun j hj => ?_, fun j => (hafter.type j).trans (htype j),
      progress hafter.inv hafter.packed⟩
    rw [hafter.files, Function.update_noteq hj, hfiles j hj]

/-- Inode 1 of `oneBlockDir`, a directory of 16 bytes in one block, backed to its end. -/
theorem Reach.backed_one_block :
    let s := oneBlockDir fun k => k.toUInt8
    let e : Backed := ⟨s.files smallEnv 1, 16⟩
    smallEnv.Sane ∧ FilesInv smallEnv (· < 3) s ∧ Packed smallEnv 1 s e ∧ Reach smallEnv 1 s e s e ∧
      FilesInv smallEnv (· < 3) s ∧ Packed smallEnv 1 s e ∧
      (∀ j, j ≠ 1 → s.files smallEnv j = s.files smallEnv j) ∧
      (∀ j, (s.inodes j).type = (s.inodes j).type) ∧
      ∀ o : ExtOp, o.Fits smallEnv.geo (s.inodes 1).type e →
        ∃ r s' e', o.call smallEnv 1 s = .ok r s' ∧ Backed.Step smallEnv.geo.bsize e o r e' := by
  intro s e
  have hE : smallEnv.Sane := Env.firstFit_sane _ (by decide)
  have hs : FilesInv smallEnv (· < 3) s := oneBlockDir_filesInv _
  have hp : Packed smallEnv 1 s e :=
    ⟨rfl, Dense.of_direct (fun k _ hk => absurd hk (by show ¬ k + 1 < 1; omega)) rfl rfl,
      by decide, by decide⟩
  exact ⟨hE, hs, hp, .init, Reach.backed hE hs hp .init⟩

end Run

end Sv6Fs
