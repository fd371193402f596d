import Sv6Fs.DirRoundTrip

/-! # `drop_bufcache`

`drop_bufcache(ip)` takes the inode's blocks out of the buffer cache: every direct block;
when the indirect block is itself in the cache, the blocks of its entries and then the
indirect block; when the doubly-indirect root is in the cache, for each second-level block
in the cache the blocks of its entries and then the second-level block, and last the root.
It reads a pointer block only when the cache holds it, so as not to read a block from the
disk just to throw it out. `buf.hh` is not among the repository's files: the cache is seen
as the set of blocks it holds (`cached`), which `buf::put` leaves and `buf::in_bufcache`
tests, and a pointer block's entries are read through the cache view `data`.

* `dropBufcache_spec`: on a tree whose slots hold distinct blocks, a block is in the cache
  afterwards exactly when it was before and is not `Dropped`: a block of the tree whose
  pointer blocks above it were all in the cache.
* `dropBufcache_drops_tree`: so when the cache holds the pointer block above each block of
  the tree it holds, as the source's comment assumes, no block of the tree is left in the
  cache, and every other block keeps its place. A cached block under an indirect block that
  is not cached stays in the cache (`dropBufcache_keeps_orphan`).
-/

namespace Sv6Fs

/-! ## The model -/

section Model

variable (G : Geometry)

/-- `buf::put(dev, b)`: block `b` leaves the cache. -/
def dropBlock (cached : Nat → Bool) (b : Nat) : Nat → Bool := Function.update cached b false

/-- `for (i = 0; i < n; i++) if (a[i]) buf::put(dev, a[i]);` -/
def dropEntries (a : Nat → Nat) (n : Nat) (cached : Nat → Bool) : Nat → Bool :=
  (List.range n).foldl (fun m i => if a i ≠ 0 then dropBlock m (a i) else m) cached

/-- A pointer block `b`, the indirect block or a second-level block: when it is nonzero and
in the cache, its entries' blocks leave the cache, then `b` itself. -/
def dropIndirect (data : Nat → Block) (b : Nat) (cached : Nat → Bool) : Nat → Bool :=
  if b ≠ 0 ∧ cached b = true then
    dropBlock (dropEntries (entryAt data b) G.nindirect cached) b
  else cached

/-- The loop over the doubly-indirect root's entries `a1`. -/
def dropDoubly (data : Nat → Block) (a1 : Nat → Nat) (cached : Nat → Bool) : Nat → Bool :=
  (List.range G.nindirect).foldl (fun m i => dropIndirect G data (a1 i) m) cached

/-- `drop_bufcache(ip)`, from the blocks the cache holds to those it holds afterwards. -/
def dropBufcache (ip : Inode) (data : Nat → Block) (cached : Nat → Bool) : Nat → Bool :=
  let m := dropIndirect G data (ip.addrs G.ndirect) (dropEntries ip.addrs G.ndirect cached)
  let dbl := ip.addrs (G.ndirect + 1)
  if dbl ≠ 0 ∧ m dbl = true then dropBlock (dropDoubly G data (entryAt data dbl) m) dbl else m

/-- The blocks `drop_bufcache` takes out of the cache: a nonzero block of the tree whose
pointer blocks above it are all in the cache. -/
def Dropped (ip : Inode) (data : Nat → Block) (cached : Nat → Bool) (x : Nat) : Prop :=
  ∃ σ : Slot, σ.Valid G ∧ slotVal G ip data σ = x ∧ x ≠ 0 ∧
    ∀ π ∈ σ.path, π ≠ σ → cached (slotVal G ip data π) = true

end Model

/-! ## The loops -/

section Loops

variable {G : Geometry} {data : Nat → Block}

@[simp] theorem dropBlock_apply (m : Nat → Bool) (b x : Nat) :
    dropBlock m b x = if x = b then false else m x := by
  simp [dropBlock, Function.update_apply]

theorem dropEntries_succ (a : Nat → Nat) (n : Nat) (m : Nat → Bool) :
    dropEntries a (n + 1) m =
      if a n ≠ 0 then dropBlock (dropEntries a n m) (a n) else dropEntries a n m := by
  simp [dropEntries, List.range_succ]

/-- After a loop over entries, a block is in the cache when it was and is no entry's. -/
theorem dropEntries_true (a : Nat → Nat) (n : Nat) (m : Nat → Bool) (x : Nat) :
    dropEntries a n m x = true ↔ m x = true ∧ ¬ ∃ i < n, a i ≠ 0 ∧ a i = x := by
  induction n with
  | zero => simp [dropEntries]
  | succ n ih =>
    rw [dropEntries_succ, Nat.exists_lt_succ]
    by_cases h : a n = 0
    · simp [h, ih]
    by_cases hx : x = a n
    · subst hx
      simp [h]
    · simp [h, hx, ih, Ne.symm hx]

/-- After one pointer block, a block is in the cache when it was and is not that block or
one of its entries' blocks, when the pointer block was in the cache. -/
theorem dropIndirect_true (b : Nat) (m : Nat → Bool) (x : Nat) :
    dropIndirect G data b m x = true ↔ m x = true ∧ ¬ (b ≠ 0 ∧ m b = true ∧
      (b = x ∨ ∃ j < G.nindirect, entryAt data b j ≠ 0 ∧ entryAt data b j = x)) := by
  unfold dropIndirect
  split_ifs with h
  · by_cases hx : x = b
    · subst hx
      simp [h]
    · simp [hx, h, dropEntries_true, Ne.symm hx]
  · simp only [not_and] at h ⊢
    exact ⟨fun hm => ⟨hm, fun hb hmb => absurd hmb (h hb)⟩, And.left⟩

/-- The loop over the second-level blocks `a1 0, a1 1, ...`, which are distinct and no entry
of one another: the cache a pass tests is the one the loop started from. -/
theorem dropDoubly_true {a1 : Nat → Nat}
    (hdist : ∀ i < G.nindirect, a1 i ≠ 0 → ∀ i' < G.nindirect, i' ≠ i →
      a1 i' ≠ a1 i ∧ ∀ j < G.nindirect, entryAt data (a1 i') j ≠ a1 i)
    (m : Nat → Bool) (x : Nat) :
    dropDoubly G data a1 m x = true ↔ m x = true ∧ ¬ ∃ i < G.nindirect, a1 i ≠ 0 ∧
      m (a1 i) = true ∧ (a1 i = x ∨ ∃ j < G.nindirect,
        entryAt data (a1 i) j ≠ 0 ∧ entryAt data (a1 i) j = x) := by
  suffices H : ∀ k ≤ G.nindirect, ∀ x,
      (List.range k).foldl (fun m i => dropIndirect G data (a1 i) m) m x = true ↔
        m x = true ∧ ¬ ∃ i < k, a1 i ≠ 0 ∧ m (a1 i) = true ∧ (a1 i = x ∨ ∃ j < G.nindirect,
          entryAt data (a1 i) j ≠ 0 ∧ entryAt data (a1 i) j = x) from H _ le_rfl x
  intro k hk
  induction k with
  | zero => simp
  | succ k ih =>
    intro x
    have ih := ih (by omega)
    -- pass `k` tests the cache the loop started from
    have hk₀ : a1 k ≠ 0 →
        ((List.range k).foldl (fun m i => dropIndirect G data (a1 i) m) m (a1 k) = true ↔
          m (a1 k) = true) := fun h0 => by
      rw [ih]
      refine ⟨And.left, fun hm => ⟨hm, ?_⟩⟩
      rintro ⟨i, hi, -, -, e | ⟨j, hj, -, e⟩⟩
      · exact (hdist k (by omega) h0 i (by omega) (by omega)).1 e
      · exact (hdist k (by omega) h0 i (by omega) (by omega)).2 j hj e
    simp only [List.range_succ, List.foldl_append, List.foldl_cons, List.foldl_nil]
    rw [dropIndirect_true]
    by_cases h0 : a1 k = 0
    · simp [h0, ih, Nat.exists_lt_succ]
    · rw [hk₀ h0, ih, Nat.exists_lt_succ, not_or, and_assoc]

end Loops

/-! ## What `drop_bufcache` drops -/

section Spec

variable {G : Geometry} {ip : Inode} {data : Nat → Block} {m : Nat → Bool}

/-- `Dropped`, tier by tier: a nonzero direct block, the indirect block, an entry of the
indirect block when that is cached, the doubly-indirect root, and under it, when it is
cached, a second-level block, and an entry of a cached second-level block. -/
theorem dropped_iff (x : Nat) :
    Dropped G ip data m x ↔ x ≠ 0 ∧ ((∃ i < G.ndirect, ip.addrs i = x) ∨
      ip.addrs G.ndirect = x ∨
      (m (ip.addrs G.ndirect) = true ∧ ∃ j < G.nindirect, entryAt data (ip.addrs G.ndirect) j = x) ∨
      ip.addrs (G.ndirect + 1) = x ∨
      (m (ip.addrs (G.ndirect + 1)) = true ∧ ∃ i < G.nindirect,
        entryAt data (ip.addrs (G.ndirect + 1)) i = x ∨
        (m (entryAt data (ip.addrs (G.ndirect + 1)) i) = true ∧ ∃ j < G.nindirect,
          entryAt data (entryAt data (ip.addrs (G.ndirect + 1)) i) j = x))) := by
  constructor
  · rintro ⟨σ, hσ, rfl, h0, hp⟩
    refine ⟨h0, ?_⟩
    cases σ with
    | direct k => exact .inl ⟨k, hσ, rfl⟩
    | indRoot => exact .inr (.inl rfl)
    | ind k => exact .inr (.inr (.inl ⟨hp .indRoot (by simp [Slot.path]) (by simp), k, hσ, rfl⟩))
    | dblRoot => exact .inr (.inr (.inr (.inl rfl)))
    | dbl1 k =>
      exact .inr (.inr (.inr (.inr ⟨hp .dblRoot (by simp [Slot.path]) (by simp), k, hσ, .inl rfl⟩)))
    | dbl2 k j =>
      exact .inr (.inr (.inr (.inr ⟨hp .dblRoot (by simp [Slot.path]) (by simp), k, hσ.1,
        .inr ⟨hp (.dbl1 k) (by simp [Slot.path]) (by simp), j, hσ.2, rfl⟩⟩)))
  · rintro ⟨h0, ⟨k, hk, rfl⟩ | rfl | ⟨hm, k, hk, rfl⟩ | rfl | ⟨hm, k, hk, rfl | ⟨hm', j, hj, rfl⟩⟩⟩
    · exact ⟨.direct k, hk, rfl, h0, by simp [Slot.path]⟩
    · exact ⟨.indRoot, trivial, rfl, h0, by simp [Slot.path]⟩
    · exact ⟨.ind k, hk, rfl, h0, by simpa [Slot.path] using hm⟩
    · exact ⟨.dblRoot, trivial, rfl, h0, by simp [Slot.path]⟩
    · exact ⟨.dbl1 k, hk, rfl, h0, by simpa [Slot.path] using hm⟩
    · exact ⟨.dbl2 k j, ⟨hk, hj⟩, rfl, h0, by simp only [Slot.path]; simpa using ⟨hm, hm'⟩⟩

/-- On a tree whose slots hold distinct blocks, `drop_bufcache` leaves in the cache exactly
the blocks that were there and are not `Dropped`. -/
theorem dropBufcache_spec (hinj : Inj G ip data) (m : Nat → Bool) (x : Nat) :
    dropBufcache G ip data m x = true ↔ m x = true ∧ ¬ Dropped G ip data m x := by
  -- two slots holding one nonzero block are one slot
  have hne : ∀ σ τ : Slot, σ.Valid G → τ.Valid G → slotVal G ip data σ ≠ 0 → σ ≠ τ →
      slotVal G ip data τ ≠ slotVal G ip data σ := fun σ τ hσ hτ h0 hst e =>
    hst (hinj σ τ hσ hτ h0 e.symm)
  -- the cache after the direct and indirect stages
  set m₂ := dropIndirect G data (ip.addrs G.ndirect) (dropEntries ip.addrs G.ndirect m) with hm₂
  have h₂ : ∀ y, m₂ y = true ↔ m y = true ∧
      ¬ (∃ i < G.ndirect, ip.addrs i ≠ 0 ∧ ip.addrs i = y) ∧
      ¬ (ip.addrs G.ndirect ≠ 0 ∧ m (ip.addrs G.ndirect) = true ∧ (ip.addrs G.ndirect = y ∨
        ∃ j < G.nindirect, entryAt data (ip.addrs G.ndirect) j ≠ 0 ∧
          entryAt data (ip.addrs G.ndirect) j = y)) := fun y => by
    simp only [hm₂, dropIndirect_true, dropEntries_true, and_assoc]
    by_cases h0 : ip.addrs G.ndirect = 0
    · simp [h0]
    · have hind : ¬ ∃ i < G.ndirect, ip.addrs i ≠ 0 ∧ ip.addrs i = ip.addrs G.ndirect :=
        fun ⟨i, hi, _, e⟩ => hne .indRoot (.direct i) trivial hi h0 (by simp) e
      simp only [hind, not_false_eq_true, and_true, true_and]
  -- a block of the doubly-indirect tree is in that cache when it was in the first
  have hkeep : ∀ σ : Slot, σ.Valid G → slotVal G ip data σ ≠ 0 → (∀ k, σ ≠ .direct k) →
      σ ≠ .indRoot → (∀ k, σ ≠ .ind k) →
      (m₂ (slotVal G ip data σ) = true ↔ m (slotVal G ip data σ) = true) := by
    intro σ hσ h0 hd hr hi
    rw [h₂]
    refine ⟨And.left, fun hm => ⟨hm, ?_, ?_⟩⟩
    · rintro ⟨k, hk, -, e⟩
      exact hne σ (.direct k) hσ hk h0 (hd k) e
    · rintro ⟨-, -, e | ⟨k, hk, -, e⟩⟩
      · exact hne σ .indRoot hσ trivial h0 hr e
      · exact hne σ (.ind k) hσ hk h0 (hi k) e
  have hdist : ∀ i < G.nindirect, entryAt data (ip.addrs (G.ndirect + 1)) i ≠ 0 →
      ∀ i' < G.nindirect, i' ≠ i →
        entryAt data (ip.addrs (G.ndirect + 1)) i' ≠ entryAt data (ip.addrs (G.ndirect + 1)) i ∧
        ∀ j < G.nindirect, entryAt data (entryAt data (ip.addrs (G.ndirect + 1)) i') j ≠
          entryAt data (ip.addrs (G.ndirect + 1)) i :=
    fun i hi h0 i' hi' hii => ⟨hne (.dbl1 i) (.dbl1 i') hi hi' h0 (by simp [Ne.symm hii]),
      fun j hj => hne (.dbl1 i) (.dbl2 i' j) hi ⟨hi', hj⟩ h0 (by simp)⟩
  have hroot : ∀ {b k}, entryAt data b k ≠ 0 → b ≠ 0 := fun h hb => h (by simp [entryAt, hb])
  have hkeep₁ : ∀ {k}, k < G.nindirect → entryAt data (ip.addrs (G.ndirect + 1)) k ≠ 0 →
      (m₂ (entryAt data (ip.addrs (G.ndirect + 1)) k) = true ↔
        m (entryAt data (ip.addrs (G.ndirect + 1)) k) = true) := fun {k} hk h0 =>
    hkeep (.dbl1 k) hk h0 (by simp) (by simp) (by simp)
  simp only [dropBufcache, ← hm₂]
  rw [dropped_iff]
  split_ifs with h₃
  · -- the doubly-indirect root was in the cache: its tree leaves it, then the root
    obtain ⟨hd0, hdm⟩ := h₃
    have hdm' := (hkeep .dblRoot trivial hd0 (by simp) (by simp) (by simp)).1 hdm
    rw [dropBlock_apply]
    by_cases hx : x = ip.addrs (G.ndirect + 1)
    · subst hx
      simp [hd0]
    rw [if_neg hx, dropDoubly_true hdist, h₂]
    constructor
    · rintro ⟨⟨hm, hD₁, hD₂⟩, hD₃⟩
      refine ⟨hm, ?_⟩
      rintro ⟨h0, ⟨k, hk, rfl⟩ | rfl | ⟨hmi, k, hk, rfl⟩ | rfl | ⟨-, k, hk, rfl | ⟨hmk, j, hj, rfl⟩⟩⟩
      · exact hD₁ ⟨k, hk, h0, rfl⟩
      · exact hD₂ ⟨h0, hm, .inl rfl⟩
      · exact hD₂ ⟨hroot h0, hmi, .inr ⟨k, hk, h0, rfl⟩⟩
      · exact hx rfl
      · exact hD₃ ⟨k, hk, h0, (hkeep₁ hk h0).2 hm, .inl rfl⟩
      · exact hD₃ ⟨k, hk, hroot h0, (hkeep₁ hk (hroot h0)).2 hmk, .inr ⟨j, hj, h0, rfl⟩⟩
    · rintro ⟨hm, hD⟩
      refine ⟨⟨hm, ?_, ?_⟩, ?_⟩
      · rintro ⟨k, hk, h0, rfl⟩
        exact hD ⟨h0, .inl ⟨k, hk, rfl⟩⟩
      · rintro ⟨h0, hmi, rfl | ⟨k, hk, hk0, rfl⟩⟩
        · exact hD ⟨h0, .inr (.inl rfl)⟩
        · exact hD ⟨hk0, .inr (.inr (.inl ⟨hmi, k, hk, rfl⟩))⟩
      · rintro ⟨k, hk, hk0, hmk, rfl | ⟨j, hj, hj0, rfl⟩⟩
        · exact hD ⟨hk0, .inr (.inr (.inr (.inr ⟨hdm', k, hk, .inl rfl⟩)))⟩
        · exact hD ⟨hj0, .inr (.inr (.inr (.inr ⟨hdm', k, hk,
            .inr ⟨(hkeep₁ hk hk0).1 hmk, j, hj, rfl⟩⟩)))⟩
  · -- it was not: the doubly-indirect tree is left alone, and none of it is `Dropped`
    have hnot : m (ip.addrs (G.ndirect + 1)) = true → ip.addrs (G.ndirect + 1) = 0 := fun hm => by
      by_contra hd0
      exact h₃ ⟨hd0, (hkeep .dblRoot trivial hd0 (by simp) (by simp) (by simp)).2 hm⟩
    rw [h₂]
    constructor
    · rintro ⟨hm, hD₁, hD₂⟩
      refine ⟨hm, ?_⟩
      rintro ⟨h0, ⟨k, hk, rfl⟩ | rfl | ⟨hmi, k, hk, rfl⟩ | rfl | ⟨hmd, k, hk, e | ⟨-, j, hj, e⟩⟩⟩
      · exact hD₁ ⟨k, hk, h0, rfl⟩
      · exact hD₂ ⟨h0, hm, .inl rfl⟩
      · exact hD₂ ⟨hroot h0, hmi, .inr ⟨k, hk, h0, rfl⟩⟩
      · exact h0 (hnot hm)
      · exact hroot (e ▸ h0) (hnot hmd)
      · exact hroot (hroot (e ▸ h0)) (hnot hmd)
    · rintro ⟨hm, hD⟩
      refine ⟨hm, ?_, ?_⟩
      · rintro ⟨k, hk, h0, rfl⟩
        exact hD ⟨h0, .inl ⟨k, hk, rfl⟩⟩
      · rintro ⟨h0, hmi, rfl | ⟨k, hk, hk0, rfl⟩⟩
        · exact hD ⟨h0, .inr (.inl rfl)⟩
        · exact hD ⟨hk0, .inr (.inr (.inl ⟨hmi, k, hk, rfl⟩))⟩

/-- When the cache holds the pointer block above each block of the tree that it holds, as
the source's comment assumes, `drop_bufcache` leaves no block of the tree in the cache, and
every other block where it was. -/
theorem dropBufcache_drops_tree (hinj : Inj G ip data)
    (hclosed : ∀ π : Slot, π.Valid G → π.isPtr → ∀ k, (π.child k).Valid G →
      m (slotVal G ip data (π.child k)) = true → m (slotVal G ip data π) = true) :
    (∀ τ : Slot, τ.Valid G → slotVal G ip data τ ≠ 0 →
      dropBufcache G ip data m (slotVal G ip data τ) = false) ∧
    ∀ x, (∀ τ : Slot, τ.Valid G → slotVal G ip data τ ≠ x) → dropBufcache G ip data m x = m x := by
  refine ⟨fun τ hτ h0 => ?_, fun x hx => ?_⟩
  · -- a cached block of the tree has its whole path in the cache, so it is `Dropped`
    refine Bool.eq_false_iff.2 fun h => ((dropBufcache_spec hinj m _).1 h).2
      ⟨τ, hτ, rfl, h0, fun π hπ hne => ?_⟩
    have hm := ((dropBufcache_spec hinj m _).1 h).1
    cases τ with
    | ind k => simp_all [Slot.path]; exact hclosed .indRoot trivial rfl k hτ hm
    | dbl1 k => simp_all [Slot.path]; exact hclosed .dblRoot trivial rfl k hτ hm
    | dbl2 k j =>
      have h₁ := hclosed (.dbl1 k) hτ.1 rfl j hτ hm
      simp only [Slot.path, List.mem_cons, List.mem_singleton, List.not_mem_nil, or_false] at hπ
      rcases hπ with rfl | rfl | rfl
      · exact hclosed .dblRoot trivial rfl k hτ.1 h₁
      · exact h₁
      · exact absurd rfl hne
    | _ => simp_all [Slot.path]
  · -- a block of no slot is not `Dropped`
    have hD : ¬ Dropped G ip data m x := fun ⟨τ, hτ, e, _⟩ => hx τ hτ e
    exact Bool.eq_iff_iff.2 ((dropBufcache_spec hinj m x).trans (and_iff_left hD))

/-- A cached block under an indirect block that is not in the cache stays in the cache. -/
theorem dropBufcache_keeps_orphan (hinj : Inj G ip data) {k : Nat} (hk : k < G.nindirect)
    (h0 : slotVal G ip data (.ind k) ≠ 0) (hm : m (slotVal G ip data (.ind k)) = true)
    (hind : m (ip.addrs G.ndirect) = false) :
    dropBufcache G ip data m (slotVal G ip data (.ind k)) = true := by
  refine (dropBufcache_spec hinj m _).2 ⟨hm, fun ⟨σ, hσ, e, _, hp⟩ => ?_⟩
  obtain rfl : σ = .ind k := hinj σ (.ind k) hσ hk (by rw [e]; exact h0) e
  exact Bool.noConfusion ((hp .indRoot (by simp [Slot.path]) (by simp)).symm.trans hind)

/-- Inode 1 of `tierFile`, with every block in the cache but the indirect block 4: block 5,
under it, stays in the cache; block 8, under the doubly-indirect root 6 and the second-level
block 7, leaves it. -/
theorem dropBufcache_spec_tiers :
    let m : Nat → Bool := fun b => b ≠ 4
    Inj smallEnv.geo (tierFile.inodes 1) tierFile.fs.buf.data ∧
      (dropBufcache smallEnv.geo (tierFile.inodes 1) tierFile.fs.buf.data m 5 = true ↔
        m 5 = true ∧ ¬ Dropped smallEnv.geo (tierFile.inodes 1) tierFile.fs.buf.data m 5) ∧
      (dropBufcache smallEnv.geo (tierFile.inodes 1) tierFile.fs.buf.data m 8 = true ↔
        m 8 = true ∧ ¬ Dropped smallEnv.geo (tierFile.inodes 1) tierFile.fs.buf.data m 8) ∧
      dropBufcache smallEnv.geo (tierFile.inodes 1) tierFile.fs.buf.data m 5 = true ∧
      dropBufcache smallEnv.geo (tierFile.inodes 1) tierFile.fs.buf.data m 8 = false := by
  intro m
  have hinj : Inj smallEnv.geo (tierFile.inodes 1) tierFile.fs.buf.data := (tierFile_owned.wf 1).inj
  have hnd : smallEnv.geo.ndirect = 1 := rfl
  have hval : ∀ τ : Slot, slotVal smallEnv.geo (tierFile.inodes 1) tierFile.fs.buf.data τ =
      slotVal smallEnv.geo (tierFile.inodes 1) tierData τ := fun _ => rfl
  have h5 : slotVal smallEnv.geo (tierFile.inodes 1) tierFile.fs.buf.data (.ind 0) = 5 := by
    simp [hval, slotVal, tierFile, entryAt_tierData, hnd]
  have hD8 : Dropped smallEnv.geo (tierFile.inodes 1) tierFile.fs.buf.data m 8 := by
    refine ⟨.dbl2 0 0, ⟨by decide, by decide⟩, by simp [hval, slotVal, tierFile, entryAt_tierData, hnd],
      by decide, fun π hπ hne => ?_⟩
    simp only [Slot.path, List.mem_cons, List.mem_singleton, List.not_mem_nil, or_false] at hπ
    rcases hπ with rfl | rfl | rfl
    · simp [m, slotVal, tierFile, hnd]
    · simp [m, hval, slotVal, tierFile, entryAt_tierData, hnd]
    · exact absurd rfl hne
  have hk5 := dropBufcache_keeps_orphan hinj (m := m) (k := 0) (by decide) (by rw [h5]; decide)
    (by rw [h5]; rfl) (by simp [m, tierFile, hnd])
  rw [h5] at hk5
  exact ⟨hinj, dropBufcache_spec hinj m 5, dropBufcache_spec hinj m 8, hk5,
    Bool.eq_false_iff.2 fun h => ((dropBufcache_spec hinj m 8).1 h).2 hD8⟩

/-- Every block in the cache: the blocks of inode 1 of `tierFile`, in each of the three
tiers, leave it, and every other block stays. -/
theorem dropBufcache_drops_tree_tiers :
    Inj smallEnv.geo (tierFile.inodes 1) tierFile.fs.buf.data ∧
      (∀ π : Slot, π.Valid smallEnv.geo → π.isPtr → ∀ k, (π.child k).Valid smallEnv.geo →
        (fun _ => true) (slotVal smallEnv.geo (tierFile.inodes 1) tierFile.fs.buf.data (π.child k)) = true →
        (fun _ => true) (slotVal smallEnv.geo (tierFile.inodes 1) tierFile.fs.buf.data π) = true) ∧
      (∀ τ : Slot, τ.Valid smallEnv.geo →
        slotVal smallEnv.geo (tierFile.inodes 1) tierFile.fs.buf.data τ ≠ 0 →
        dropBufcache smallEnv.geo (tierFile.inodes 1) tierFile.fs.buf.data (fun _ => true)
          (slotVal smallEnv.geo (tierFile.inodes 1) tierFile.fs.buf.data τ) = false) ∧
      ∀ x, (∀ τ : Slot, τ.Valid smallEnv.geo →
          slotVal smallEnv.geo (tierFile.inodes 1) tierFile.fs.buf.data τ ≠ x) →
        dropBufcache smallEnv.geo (tierFile.inodes 1) tierFile.fs.buf.data (fun _ => true) x =
          true := by
  have hinj : Inj smallEnv.geo (tierFile.inodes 1) tierFile.fs.buf.data := (tierFile_owned.wf 1).inj
  have hclosed : ∀ π : Slot, π.Valid smallEnv.geo → π.isPtr → ∀ k, (π.child k).Valid smallEnv.geo →
      (fun _ => true) (slotVal smallEnv.geo (tierFile.inodes 1) tierFile.fs.buf.data (π.child k)) = true →
      (fun (_ : Nat) => true) (slotVal smallEnv.geo (tierFile.inodes 1) tierFile.fs.buf.data π) = true :=
    fun _ _ _ _ _ _ => rfl
  exact ⟨hinj, hclosed, (dropBufcache_drops_tree hinj hclosed).1,
    (dropBufcache_drops_tree hinj hclosed).2⟩

end Spec

end Sv6Fs
