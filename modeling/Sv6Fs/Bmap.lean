import Sv6Fs.Sys

/-! # What `bmap` does to the block tree

`bmap` walks the tier of a logical block and, where it finds a slot holding 0, takes a
block from `balloc` and stores it there: in an address of the inode, or in an entry of one
of the inode's indirect blocks. An indirect block is zeroed when it is allocated, so its
entries all read 0, as the slots under an absent block do.

`Filled` says what one such step does, seen through the tree: slot `σ`, which held 0, now
holds the fresh block `v`; every other slot keeps its block; the free-bit-vector loses
`v`; the bytes change only in `v` and in the indirect block that holds `σ`. `Fills` is a
sequence of such steps.

* `bmap_ok`: a `bmap` of a logical block in range that returns `b` has filled the missing
  slots on the way to it, and `b` is the block its data slot holds.
* `bmap_error`: one that runs out of blocks has filled some of the indirect slots on the
  way, and the allocator has no block left to give.
-/

namespace Sv6Fs

section Frame

variable (G : Geometry)

/-- Block `b` is one of the inode's indirect blocks: a tier root, or a second-level block
of the doubly-indirect tier. -/
def IsPtr (ip : Inode) (data : Nat → Block) (b : Nat) : Prop :=
  b ≠ 0 ∧ (b = ip.addrs G.ndirect ∨ b = ip.addrs (G.ndirect + 1) ∨
    ∃ k < G.nindirect, b = entryAt data (ip.addrs (G.ndirect + 1)) k)

/-- The slots of an inode hold distinct blocks. -/
def Inj (ip : Inode) (data : Nat → Block) : Prop :=
  ∀ σ τ, σ.Valid G → τ.Valid G → slotVal G ip data σ ≠ 0 →
    slotVal G ip data σ = slotVal G ip data τ → σ = τ

theorem entryAt_congr {data data' : Nat → Block} {b : Nat} (h : b ≠ 0 → data' b = data b)
    (k : Nat) : entryAt data' b k = entryAt data b k := by
  unfold entryAt
  split
  · rfl
  · rw [h ‹_›]

/-- The tree reads only the inode's addresses and its indirect blocks. -/
theorem slotVal_congr {ip : Inode} {data data' : Nat → Block}
    (h : ∀ b, IsPtr G ip data b → data' b = data b) {τ : Slot} (hτ : τ.Valid G) :
    slotVal G ip data' τ = slotVal G ip data τ := by
  have hI : ∀ b, b = ip.addrs G.ndirect → b ≠ 0 → data' b = data b :=
    fun b e hb => h b ⟨hb, .inl e⟩
  have hD : ∀ b, b = ip.addrs (G.ndirect + 1) → b ≠ 0 → data' b = data b :=
    fun b e hb => h b ⟨hb, .inr (.inl e)⟩
  cases τ with
  | direct k | indRoot | dblRoot => rfl
  | ind k => exact entryAt_congr (hI _ rfl) k
  | dbl1 k => exact entryAt_congr (hD _ rfl) k
  | dbl2 k j =>
    simp only [slotVal]
    rw [entryAt_congr (hD _ rfl) k]
    exact entryAt_congr (fun hb => h _ ⟨hb, .inr (.inr ⟨k, hτ.1, rfl⟩)⟩) j

/-- An inode whose addresses are all 0 holds no block. -/
theorem slotVal_of_addrs_zero {ip : Inode} (data : Nat → Block)
    (h : ∀ k < G.ndirect + 2, ip.addrs k = 0) {τ : Slot} (hτ : τ.Valid G) :
    slotVal G ip data τ = 0 := by
  have h1 := h G.ndirect (by omega)
  have h2 := h (G.ndirect + 1) (by omega)
  cases τ <;> simp [slotVal, entryAt, h1, h2]
  exact h _ (by simp only [Slot.Valid] at hτ; omega)

theorem mapped_congr {ip : Inode} {data data' : Nat → Block}
    (h : ∀ b, IsPtr G ip data b → data' b = data b) (bn : Nat) :
    mapped G ip data' bn = mapped G ip data bn := by
  unfold mapped
  split
  · exact slotVal_congr G h (dataSlot_valid G ‹_›)
  · rfl

/-- A byte of a file reads the inode's indirect blocks and the data block that holds it. -/
theorem fileByte_congr {ip : Inode} {data data' : Nat → Block}
    (h : ∀ b, IsPtr G ip data b → data' b = data b) {p : Nat}
    (hd : mapped G ip data (p / G.bsize) ≠ 0 →
      data' (mapped G ip data (p / G.bsize)) = data (mapped G ip data (p / G.bsize))) :
    fileByte G ip data' p = fileByte G ip data p := by
  simp only [fileByte, mapped_congr G h]
  split
  · rfl
  · rw [hd ‹_›]

end Frame

/-! ## Filling one slot -/

/-- The pointer slots: those that hold an indirect block. -/
def Slot.isPtr : Slot → Bool
  | .indRoot | .dblRoot | .dbl1 _ => true
  | _ => false

/-- The slot entry `i` of the block in pointer slot `ρ` is. -/
def Slot.child : Slot → Nat → Slot
  | .indRoot, i => .ind i
  | .dblRoot, i => .dbl1 i
  | .dbl1 k, i => .dbl2 k i
  | σ, _ => σ

/-- The top slots, the inode's own addresses: slot `τ` is `ip->addrs[k]`. -/
def Slot.addr (G : Geometry) : Slot → Option Nat
  | .direct k => some k
  | .indRoot => some G.ndirect
  | .dblRoot => some (G.ndirect + 1)
  | _ => none

/-- The slots `bmap` walks through to reach slot `σ`: the pointer slots above it, and `σ`. -/
def Slot.path : Slot → List Slot
  | .ind k => [.indRoot, .ind k]
  | .dbl1 k => [.dblRoot, .dbl1 k]
  | .dbl2 k j => [.dblRoot, .dbl1 k, .dbl2 k j]
  | σ => [σ]

namespace Slot

variable {G : Geometry} {π ρ σ τ : Slot}

/-- Every slot above `σ` on its path is a pointer slot. -/
theorem eq_or_isPtr_of_mem_path (h : τ ∈ σ.path) : τ = σ ∨ τ.isPtr := by
  cases σ <;> simp only [path, List.mem_cons, List.mem_singleton, List.not_mem_nil, or_false] at h <;>
    rcases h with rfl | rfl | rfl <;> simp [isPtr]

theorem child_addr (hp : π.isPtr) (k : Nat) : (π.child k).addr G = none := by
  cases π <;> simp_all [child, isPtr, addr]

theorem child_ne_self (hp : π.isPtr) (k : Nat) : π.child k ≠ π := by
  cases π <;> simp_all [child, isPtr]

theorem child_inj (hπ : π.isPtr) (hρ : ρ.isPtr) {k i : Nat} (h : π.child k = ρ.child i) :
    π = ρ ∧ k = i := by
  cases π <;> cases ρ <;> simp_all [child, isPtr]

theorem addr_inj (hσ : σ.Valid G) (hτ : τ.Valid G) {k : Nat} (h1 : σ.addr G = some k)
    (h2 : τ.addr G = some k) : σ = τ := by
  cases σ <;> cases τ <;> simp_all [addr, Valid] <;> omega

end Slot

section Fill

variable (G : Geometry) {ip : Inode} {data data' : Nat → Block}

theorem isPtr_slot {b : Nat} (h : IsPtr G ip data b) :
    ∃ τ, τ.Valid G ∧ τ.isPtr ∧ slotVal G ip data τ = b := by
  obtain ⟨hb, h | h | ⟨k, hk, h⟩⟩ := h
  · exact ⟨.indRoot, trivial, rfl, h.symm⟩
  · exact ⟨.dblRoot, trivial, rfl, h.symm⟩
  · exact ⟨.dbl1 k, hk, rfl, h.symm⟩

theorem isPtr_of_slot {τ : Slot} (hτ : τ.Valid G) (hp : τ.isPtr) (h0 : slotVal G ip data τ ≠ 0) :
    IsPtr G ip data (slotVal G ip data τ) := by
  cases τ with
  | indRoot => exact ⟨h0, .inl rfl⟩
  | dblRoot => exact ⟨h0, .inr (.inl rfl)⟩
  | dbl1 k => exact ⟨h0, .inr (.inr ⟨k, hτ, rfl⟩)⟩
  | _ => simp [Slot.isPtr] at hp

theorem slotVal_of_addr {τ : Slot} {k : Nat} (h : τ.addr G = some k) :
    slotVal G ip data τ = ip.addrs k := by
  cases τ <;> simp_all [Slot.addr, slotVal]

/-- A slot under a pointer slot reads its entry of the pointer slot's block. -/
theorem slotVal_child {π : Slot} (hp : π.isPtr) (k : Nat) :
    slotVal G ip data (π.child k) = entryAt data (slotVal G ip data π) k := by
  cases π <;> simp_all [Slot.isPtr, Slot.child, slotVal]

/-- Slot `σ`, which held 0, is given block `v`, seen from the top: if the inode's addresses
and the entries of the blocks in the pointer slots change only at `σ`, and `v`'s entries
read 0 when `σ` is a pointer slot, then `σ` holds `v` and every other slot keeps its
block. -/
theorem slotVal_fill {ip' : Inode} {σ : Slot} {v : Nat} (h0 : slotVal G ip data σ = 0)
    (htop : ∀ τ k, τ.Valid G → τ.addr G = some k →
      ip'.addrs k = if τ = σ then v else ip.addrs k)
    (hent : ∀ π, π.Valid G → π.isPtr → π ≠ σ → ∀ k, entryAt data' (slotVal G ip data π) k =
      if π.child k = σ then v else entryAt data (slotVal G ip data π) k)
    (hv : σ.isPtr → ∀ k, entryAt data' v k = 0) {τ : Slot} (hτ : τ.Valid G) :
    slotVal G ip' data' τ = if τ = σ then v else slotVal G ip data τ := by
  have htop' : ∀ τ k, τ.Valid G → τ.addr G = some k →
      slotVal G ip' data' τ = if τ = σ then v else slotVal G ip data τ := fun τ k hτ hk => by
    rw [slotVal_of_addr G hk, slotVal_of_addr G hk, htop τ k hτ hk]
  -- one level down, from the pointer slot `π` to its entry `k`
  have hstep : ∀ π k, π.Valid G → π.isPtr →
      slotVal G ip' data' π = (if π = σ then v else slotVal G ip data π) →
      slotVal G ip' data' (π.child k) =
        if π.child k = σ then v else slotVal G ip data (π.child k) := by
    intro π k hπ hp h
    rw [slotVal_child G hp, slotVal_child G hp, h]
    by_cases hπσ : π = σ
    · subst hπσ
      rw [if_pos rfl, if_neg (Slot.child_ne_self hp k), hv hp k, h0]
      simp [entryAt]
    · rw [if_neg hπσ]
      exact hent π hπ hp hπσ k
  cases τ with
  | direct k => exact htop' _ k hτ rfl
  | indRoot => exact htop' _ _ hτ rfl
  | dblRoot => exact htop' _ _ hτ rfl
  | ind k => exact hstep .indRoot k trivial rfl (htop' _ _ trivial rfl)
  | dbl1 k => exact hstep .dblRoot k trivial rfl (htop' _ _ trivial rfl)
  | dbl2 k j => exact hstep (.dbl1 k) j hτ.1 rfl (hstep .dblRoot k trivial rfl (htop' _ _ trivial rfl))

/-- `ip->addrs[k] = v` for the top slot `σ`, with the fresh block `v` given the bytes `Z`. -/
theorem slotVal_setAddr {σ : Slot} {k v : Nat} (hσ : σ.Valid G) (hk : σ.addr G = some k)
    (h0 : slotVal G ip data σ = 0) (hv : ∀ τ, τ.Valid G → slotVal G ip data τ ≠ v)
    {Z : Block} (hZ : σ.isPtr → Z = zeroBlock) (hd : ∀ b, data' b = if b = v then Z else data b)
    {τ : Slot} (hτ : τ.Valid G) :
    slotVal G (ip.setAddr k v) data' τ = if τ = σ then v else slotVal G ip data τ := by
  refine slotVal_fill G h0 (fun τ k' hτ hk' => ?_) (fun π hπ hp _ k' => ?_) (fun hp k' => ?_) hτ
  · by_cases h : τ = σ
    · subst h; simp_all
    · rw [if_neg h, Inode.setAddr_addrs, Function.update_noteq]
      rintro rfl
      exact h (Slot.addr_inj hτ hσ hk' hk)
  · rw [if_neg (fun h => by simp [← h, Slot.child_addr hp] at hk)]
    exact entryAt_congr (fun _ => by rw [hd, if_neg (hv π hπ)]) k'
  · simp [entryAt, hd, hZ hp]

theorem entryAt_setEntry {r i v : Nat} {Z : Block} (hv32 : v < 4294967296)
    (hd : ∀ b, data' b = if b = r then setWord (data r) i v else if b = v then Z else data b)
    {b : Nat} (hbv : b ≠ v) (k : Nat) :
    entryAt data' b k = if b = r ∧ b ≠ 0 ∧ k = i then v else entryAt data b k := by
  unfold entryAt
  by_cases hb : b = 0
  · simp [hb]
  by_cases hbr : b = r
  · subst hbr
    rw [hd, if_pos rfl, getWord_setWord]
    by_cases hk : k = i
    · simp [hb, hk, Nat.mod_eq_of_lt hv32]
    · simp [hb, hk, Ne.symm hk]
  · simp [hb, hbr, hbv, hd]

/-- `ap[i] = v` in the indirect block `r` of pointer slot `ρ`, whose entry `i` held 0,
with the fresh block `v` given the bytes `Z`. -/
theorem slotVal_setEntry (hinj : Inj G ip data) {ρ : Slot} (hρ : ρ.Valid G) (hp : ρ.isPtr)
    {r i v : Nat} (hr : slotVal G ip data ρ = r) (hr0 : r ≠ 0)
    (h0 : slotVal G ip data (ρ.child i) = 0) (hv : ∀ τ, τ.Valid G → slotVal G ip data τ ≠ v)
    (hv32 : v < 4294967296) {Z : Block} (hZ : (ρ.child i).isPtr → Z = zeroBlock)
    (hd : ∀ b, data' b = if b = r then setWord (data r) i v else if b = v then Z else data b)
    {τ : Slot} (hτ : τ.Valid G) :
    slotVal G ip data' τ = if τ = ρ.child i then v else slotVal G ip data τ := by
  refine slotVal_fill G h0 (fun τ k hτ hk => ?_) (fun π hπ hpπ _ k => ?_) (fun hpσ k => ?_) hτ
  · rw [if_neg (fun h => by simp [h, Slot.child_addr hp] at hk)]
  · rw [entryAt_setEntry hv32 hd (hv π hπ) k]
    by_cases hc : π.child k = ρ.child i
    · obtain ⟨rfl, rfl⟩ := Slot.child_inj hpπ hp hc
      simp [hr, hr0]
    · rw [if_neg hc, if_neg]
      rintro ⟨h1, h2, rfl⟩
      exact hc (by rw [hinj π ρ hπ hρ (by rwa [h1]) (by rw [h1, hr])])
  · have hrv : r ≠ v := hr ▸ hv ρ hρ
    simp [entryAt, hd, hZ hpσ, hrv.symm]

end Fill

/-! ## What one call does to the tree -/

/-- `rootfs_interface->alloc_block()` hands out only blocks free in the bit-vector it is
given, and the superblock's `size` fits the `u32` entries of an indirect block. -/
structure Env.Sane (E : Env) : Prop where
  allocFree : ∀ f, E.allocBlock f < E.size → f (E.allocBlock f) = true
  size_le : E.size ≤ 4294967296

/-- An allocator that hands out the first free block below `n`, as a scan of the
free-bit-vector does, and `n` when there is none. -/
def Env.firstFit (G : Geometry) (n : Nat) : Env :=
  ⟨G, n, fun f => ((List.range n).find? f).getD n⟩

/-- `alloc_block()` scans the whole free-bit-vector: it comes back empty-handed only when no
block below `size` is free. -/
def Env.Complete (E : Env) : Prop :=
  ∀ f, E.size ≤ E.allocBlock f → ∀ b < E.size, f b = false

theorem Env.firstFit_complete (G : Geometry) (n : Nat) : (Env.firstFit G n).Complete := by
  intro f hf b hb
  simp only [Env.firstFit] at hf ⊢
  cases hfind : (List.range n).find? f with
  | none => simpa using List.find?_eq_none.1 hfind b (List.mem_range.2 hb)
  | some a =>
    have := List.mem_range.1 (List.mem_of_find?_eq_some hfind)
    simp [hfind] at hf
    omega

theorem Env.firstFit_sane (G : Geometry) {n : Nat} (hn : n ≤ 4294967296) :
    (Env.firstFit G n).Sane := by
  refine ⟨fun f h => ?_, hn⟩
  simp only [Env.firstFit] at h ⊢
  cases hf : (List.range n).find? f with
  | none => simp [hf] at h
  | some b => simpa using List.find?_some hf

/-- The inode's block tree in `c` is sound: its slots hold distinct blocks, each in use, and
block 0 is in use, so the allocator never hands it out. -/
structure Wf (G : Geometry) (c : Ctx) : Prop where
  inj : Inj G c.ip c.fs.buf.data
  used : ∀ τ, τ.Valid G → slotVal G c.ip c.fs.buf.data τ ≠ 0 →
    c.fs.free (slotVal G c.ip c.fs.buf.data τ) = false
  zero : c.fs.free 0 = false

/-- From `c` to `c'` a call only filled empty slots of the inode's tree: every slot keeps
its block, or (where `A` allows) held 0 and now holds a block that was free and is now in
use; blocks only leave the free-bit-vector, each into a slot; bytes change only in blocks
that were free and in the inode's indirect blocks; the inode changes only in its
addresses; and no free is recorded. -/
structure Grows (G : Geometry) (A : Slot → Prop) (c c' : Ctx) : Prop where
  slot : ∀ τ, τ.Valid G →
    slotVal G c'.ip c'.fs.buf.data τ = slotVal G c.ip c.fs.buf.data τ ∨
      A τ ∧ slotVal G c.ip c.fs.buf.data τ = 0 ∧
        c.fs.free (slotVal G c'.ip c'.fs.buf.data τ) = true ∧
        c'.fs.free (slotVal G c'.ip c'.fs.buf.data τ) = false
  free : ∀ b, c'.fs.free b = true → c.fs.free b = true
  alloc : ∀ b, b ≠ 0 → c.fs.free b = true → c'.fs.free b = false →
    ∃ τ, τ.Valid G ∧ slotVal G c'.ip c'.fs.buf.data τ = b
  data : ∀ b, c'.fs.buf.data b ≠ c.fs.buf.data b →
    c.fs.free b = true ∨ IsPtr G c.ip c.fs.buf.data b
  ip : ∃ a, c'.ip = { c.ip with addrs := a }
  freeBlocks : c'.fs.tx.freeBlocks = c.fs.tx.freeBlocks

namespace Grows

variable {G : Geometry} {A A' : Slot → Prop} {c c₁ c₂ : Ctx}

theorem refl (A : Slot → Prop) (c : Ctx) : Grows G A c c :=
  ⟨fun _ _ => .inl rfl, fun _ h => h, fun _ _ h h' => by simp [h] at h',
    fun _ h => absurd rfl h, ⟨c.ip.addrs, rfl⟩, rfl⟩

theorem mono (h : Grows G A c c₁) (hA : ∀ τ, A τ → A' τ) : Grows G A' c c₁ :=
  { h with slot := fun τ hτ => (h.slot τ hτ).imp_right fun ⟨ha, hr⟩ => ⟨hA τ ha, hr⟩ }

theorem trans (h₁ : Grows G A c c₁) (h₂ : Grows G A c₁ c₂) : Grows G A c c₂ where
  slot τ hτ := by
    rcases h₁.slot τ hτ with e₁ | ⟨hA, z₁, f₁, f₁'⟩ <;>
      rcases h₂.slot τ hτ with e₂ | ⟨hA', z₂, f₂, f₂'⟩
    · exact .inl (e₂.trans e₁)
    · exact .inr ⟨hA', e₁ ▸ z₂, h₁.free _ f₂, f₂'⟩
    · refine .inr ⟨hA, z₁, e₂ ▸ f₁, ?_⟩
      rw [e₂]
      cases hf : c₂.fs.free (slotVal G c₁.ip c₁.fs.buf.data τ)
      · rfl
      · simp [h₂.free _ hf] at f₁'
    · exact .inr ⟨hA, z₁, h₁.free _ f₂, f₂'⟩
  free b h := h₁.free b (h₂.free b h)
  alloc b hb hf hf₂ := by
    cases hf₁ : c₁.fs.free b
    · obtain ⟨τ, hτ, e⟩ := h₁.alloc b hb hf hf₁
      refine ⟨τ, hτ, ?_⟩
      rcases h₂.slot τ hτ with e₂ | ⟨-, z₂, -⟩
      · rw [e₂, e]
      · exact absurd (e.symm.trans z₂) hb
    · exact h₂.alloc b hb hf₁ hf₂
  data b h := by
    by_cases e : c₁.fs.buf.data b = c.fs.buf.data b
    · rcases h₂.data b (by rwa [e]) with hf | hp
      · exact .inl (h₁.free b hf)
      · obtain ⟨τ, hτ, hpt, rfl⟩ := isPtr_slot G hp
        rcases h₁.slot τ hτ with e₁ | ⟨-, -, f, -⟩
        · exact .inr (e₁ ▸ isPtr_of_slot G hτ hpt (e₁ ▸ hp.1))
        · exact .inl f
    · exact h₁.data b e
  ip := by
    obtain ⟨a₁, e₁⟩ := h₁.ip
    obtain ⟨a₂, e₂⟩ := h₂.ip
    exact ⟨a₂, by rw [e₂, e₁]⟩
  freeBlocks := h₂.freeBlocks.trans h₁.freeBlocks

/-- A block in use stays in use. -/
theorem free_false (h : Grows G A c c₁) {b : Nat} (hb : c.fs.free b = false) :
    c₁.fs.free b = false := by
  cases h₁ : c₁.fs.free b
  · rfl
  · simp [h.free b h₁] at hb

/-- A slot `A` does not allow keeps its block. -/
theorem slot_keep (h : Grows G A c c₁) {τ : Slot} (hτ : τ.Valid G) (hA : ¬ A τ) :
    slotVal G c₁.ip c₁.fs.buf.data τ = slotVal G c.ip c.fs.buf.data τ :=
  (h.slot τ hτ).resolve_right fun ⟨ha, _⟩ => hA ha

end Grows

section Step

variable {G : Geometry} {c c' : Ctx}

/-- A block free in a sound tree is no block of it, and is not block 0. -/
theorem Wf.fresh (hc : Wf G c) {v : Nat} (hv : c.fs.free v = true) :
    v ≠ 0 ∧ ∀ τ, τ.Valid G → slotVal G c.ip c.fs.buf.data τ ≠ v := by
  refine ⟨fun h => by simp [h, hc.zero] at hv, fun τ hτ h => ?_⟩
  have := hc.used τ hτ (by rintro h0; simp [← h, h0, hc.zero] at hv)
  simp [h, hv] at this

/-- One slot `σ`, which held 0, given the free block `v` that the free-bit-vector loses,
with the tree otherwise unchanged: a growth, and the tree stays sound. -/
theorem Grows.of_fill {A : Slot → Prop} {σ : Slot} {v : Nat} (hc : Wf G c) (hσ : σ.Valid G)
    (hA : A σ) (h0 : slotVal G c.ip c.fs.buf.data σ = 0) (hv : c.fs.free v = true)
    (hfree : c'.fs.free = Function.update c.fs.free v false)
    (hS : ∀ τ, τ.Valid G → slotVal G c'.ip c'.fs.buf.data τ =
      if τ = σ then v else slotVal G c.ip c.fs.buf.data τ)
    (hdata : ∀ b, c'.fs.buf.data b ≠ c.fs.buf.data b → b = v ∨ IsPtr G c.ip c.fs.buf.data b)
    (hip : ∃ a, c'.ip = { c.ip with addrs := a })
    (htx : c'.fs.tx.freeBlocks = c.fs.tx.freeBlocks) : Grows G A c c' ∧ Wf G c' := by
  obtain ⟨hv0, hvs⟩ := hc.fresh hv
  have hfv : c'.fs.free v = false := by simp [hfree]
  refine ⟨⟨fun τ hτ => ?_, fun b hb => ?_, fun b _ hb hb' => ?_, fun b hb => ?_, hip, htx⟩,
    ⟨fun τ₁ τ₂ h₁ h₂ hn he => ?_, fun τ hτ hn => ?_, by simp [hfree, hc.zero, hv0.symm]⟩⟩
  · rw [hS τ hτ]
    split
    · subst_vars; exact .inr ⟨hA, h0, by simp [hv], hfv⟩
    · exact .inl rfl
  · by_cases e : b = v
    · simp [e, hfv] at hb
    · simpa [hfree, e] using hb
  · by_cases e : b = v
    · exact ⟨σ, hσ, by rw [hS σ hσ, if_pos rfl, e]⟩
    · simp [hfree, e, hb] at hb'
  · exact (hdata b hb).imp (fun e => by rw [e]; exact hv) id
  · rw [hS τ₁ h₁, hS τ₂ h₂] at he
    rw [hS τ₁ h₁] at hn
    split_ifs at he hn with e₁ e₂ e₂
    · rw [e₁, e₂]
    · exact absurd he.symm (hvs τ₂ h₂)
    · exact absurd he (hvs τ₁ h₁)
    · exact hc.inj τ₁ τ₂ h₁ h₂ hn he
  · rw [hS τ hτ] at hn ⊢
    by_cases e : τ = σ
    · rw [if_pos e]; exact hfv
    · rw [if_neg e] at hn ⊢
      rw [hfree, Function.update_noteq (hvs τ hτ), hc.used τ hτ hn]

end Step

/-! ## `balloc` and the two fills of `bmap` -/

/-- The state after `balloc` hands out block `b`. -/
def Ctx.takeBlock (c : Ctx) (b : Nat) (trans zero : Bool) : Ctx :=
  let c' : Ctx := { c with fs := { c.fs with
    free := Function.update c.fs.free b false,
    tx := if trans then c.fs.tx.addAllocatedBlock b else c.fs.tx } }
  if zero then c'.writeBlock b zeroBlock else c'

namespace Ctx

variable (c : Ctx) (b : Nat) (trans zero : Bool)

@[simp] theorem takeBlock_ip : (c.takeBlock b trans zero).ip = c.ip := by
  cases zero <;> rfl
@[simp] theorem takeBlock_free :
    (c.takeBlock b trans zero).fs.free = Function.update c.fs.free b false := by
  cases zero <;> rfl
@[simp] theorem takeBlock_freeBlocks :
    (c.takeBlock b trans zero).fs.tx.freeBlocks = c.fs.tx.freeBlocks := by
  cases zero <;> cases trans <;> rfl
theorem takeBlock_data (x : Nat) : (c.takeBlock b trans zero).fs.buf.data x =
    if x = b then (if zero then zeroBlock else c.fs.buf.data b) else c.fs.buf.data x := by
  unfold takeBlock
  by_cases hx : x = b <;> cases zero <;> simp [hx, Function.update_noteq]

end Ctx

section Calls

variable (E : Env) {c c' : Ctx} {trans zero : Bool}

theorem balloc_apply (c : Ctx) : balloc E trans zero c =
    if E.allocBlock c.fs.free < E.size then
      .ok (E.allocBlock c.fs.free) (c.takeBlock (E.allocBlock c.fs.free) trans zero)
    else .error .outOfBlocks c := by
  by_cases h : E.allocBlock c.fs.free < E.size
  · rw [if_pos h]
    cases zero <;> simp [balloc, bzero, h, Ctx.takeBlock]
  · simp [balloc, h]

variable {E}

/-- `ensureAddr` fails only when the allocator has no block to give, and then changes
nothing. -/
theorem ensureAddr_error {k : Nat} {e : Fault} (h : ensureAddr E k trans zero c = .error e c') :
    e = .outOfBlocks ∧ c' = c ∧ E.size ≤ E.allocBlock c.fs.free := by
  simp only [ensureAddr, FsM.bind_apply, FsM.get_apply] at h
  split at h
  · simp only [FsM.bind_apply, balloc_apply] at h
    by_cases hlt : E.allocBlock c.fs.free < E.size
    · simp [hlt] at h
    · simp only [if_neg hlt, EStateM.Result.error.injEq] at h
      exact ⟨h.1.symm, h.2.symm, not_lt.1 hlt⟩
  · simp at h

theorem ensureEntry_error {b i : Nat} {e : Fault}
    (h : ensureEntry E b i trans zero c = .error e c') :
    e = .outOfBlocks ∧ c' = c ∧ E.size ≤ E.allocBlock c.fs.free := by
  simp only [ensureEntry, FsM.bind_apply, FsM.get_apply] at h
  split at h
  · simp only [FsM.bind_apply, balloc_apply] at h
    by_cases hlt : E.allocBlock c.fs.free < E.size
    · cases trans <;> simp [hlt, writeWord, logBlock] at h
    · simp only [if_neg hlt, EStateM.Result.error.injEq] at h
      exact ⟨h.1.symm, h.2.symm, not_lt.1 hlt⟩
  · simp at h

/-- `ensureAddr` on top slot `σ` (`ip->addrs[k]`): a fill of `σ` if it held 0, and the
block it holds. A pointer slot's block is zeroed; so is a data block when `zero`. -/
theorem ensureAddr_ok (hE : E.Sane) (hc : Wf E.geo c) {σ : Slot} {k v : Nat}
    (hσ : σ.Valid E.geo) (hk : σ.addr E.geo = some k) (hz : σ.isPtr → zero = true)
    (h : ensureAddr E k trans zero c = .ok v c') :
    Grows E.geo (· = σ) c c' ∧ Wf E.geo c' ∧ slotVal E.geo c'.ip c'.fs.buf.data σ = v ∧
      v ≠ 0 ∧ (slotVal E.geo c.ip c.fs.buf.data σ = 0 → zero → c'.fs.buf.data v = zeroBlock) := by
  have hS : slotVal E.geo c.ip c.fs.buf.data σ = c.ip.addrs k := slotVal_of_addr E.geo hk
  by_cases ha : c.ip.addrs k = 0
  · simp only [ensureAddr, FsM.bind_apply, FsM.get_apply, ha, if_true, balloc_apply] at h
    by_cases hlt : E.allocBlock c.fs.free < E.size
    · simp only [hlt, if_true, FsM.modify_apply, FsM.get_apply, FsM.pure_apply,
        EStateM.Result.ok.injEq] at h
      obtain ⟨rfl, rfl⟩ := h
      set w := E.allocBlock c.fs.free
      have hw := hE.allocFree _ hlt
      obtain ⟨hw0, hws⟩ := hc.fresh hw
      have h0 : slotVal E.geo c.ip c.fs.buf.data σ = 0 := hS.trans ha
      have hS' : ∀ τ, τ.Valid E.geo → slotVal E.geo (c.ip.setAddr k w)
          (c.takeBlock w trans zero).fs.buf.data τ =
            if τ = σ then w else slotVal E.geo c.ip c.fs.buf.data τ := fun τ hτ =>
        slotVal_setAddr E.geo hσ hk h0 hws (fun hp => by rw [hz hp, if_pos rfl])
          (Ctx.takeBlock_data c w trans zero) hτ
      obtain ⟨hg, hwf⟩ : Grows E.geo (· = σ) c ⟨c.ip.setAddr k w, (c.takeBlock w trans zero).fs⟩ ∧
          Wf E.geo ⟨c.ip.setAddr k w, (c.takeBlock w trans zero).fs⟩ :=
        Grows.of_fill hc hσ rfl h0 hw (by simp) hS'
          (fun b hb => .inl (by by_contra hbw; exact hb (by simp [Ctx.takeBlock_data, hbw])))
          ⟨_, rfl⟩ (by simp)
      simp only [Ctx.takeBlock_ip]
      refine ⟨hg, hwf, by simpa using hS' σ hσ, by simpa using hw0, fun _ hzero => ?_⟩
      simp [Ctx.takeBlock_data, hzero]
    · simp [hlt] at h
  · simp only [ensureAddr, FsM.bind_apply, FsM.get_apply, ha, if_false, FsM.pure_apply,
      EStateM.Result.ok.injEq] at h
    obtain ⟨rfl, rfl⟩ := h
    exact ⟨.refl _ _, hc, hS, ha, fun h0 => absurd (hS ▸ h0) ha⟩

/-- `ensureEntry` on entry `i` of block `b`, the block of pointer slot `ρ`: a fill of the
slot under `ρ` if it held 0, and the block it holds. -/
theorem ensureEntry_ok (hE : E.Sane) (hc : Wf E.geo c) {ρ : Slot} {b i v : Nat}
    (hρ : ρ.Valid E.geo) (hp : ρ.isPtr) (hb : slotVal E.geo c.ip c.fs.buf.data ρ = b)
    (hb0 : b ≠ 0) (hσ : (ρ.child i).Valid E.geo) (hz : (ρ.child i).isPtr → zero = true)
    (h : ensureEntry E b i trans zero c = .ok v c') :
    Grows E.geo (· = ρ.child i) c c' ∧ Wf E.geo c' ∧
      slotVal E.geo c'.ip c'.fs.buf.data (ρ.child i) = v ∧ v ≠ 0 ∧
      (slotVal E.geo c.ip c.fs.buf.data (ρ.child i) = 0 → zero →
        c'.fs.buf.data v = zeroBlock) := by
  have hS : slotVal E.geo c.ip c.fs.buf.data (ρ.child i) = c.entry b i := by
    rw [slotVal_child E.geo hp, hb]
    simp [entryAt, hb0, Ctx.entry]
  by_cases ha : c.entry b i = 0
  · simp only [ensureEntry, FsM.bind_apply, FsM.get_apply, ha, if_true, balloc_apply] at h
    by_cases hlt : E.allocBlock c.fs.free < E.size
    · set w := E.allocBlock c.fs.free
      have hw := hE.allocFree _ hlt
      obtain ⟨hw0, hws⟩ := hc.fresh hw
      have hbw : b ≠ w := hb ▸ hws ρ hρ
      -- what both branches on `trans` leave
      have key : ∀ c' : Ctx, c'.ip = c.ip → c'.fs.free = Function.update c.fs.free w false →
          (∀ x, c'.fs.buf.data x = if x = b then setWord (c.fs.buf.data b) i w
            else if x = w then (if zero then zeroBlock else c.fs.buf.data w)
            else c.fs.buf.data x) → c'.fs.tx.freeBlocks = c.fs.tx.freeBlocks →
          Grows E.geo (· = ρ.child i) c c' ∧ Wf E.geo c' ∧
            slotVal E.geo c'.ip c'.fs.buf.data (ρ.child i) = c'.entry b i ∧ c'.entry b i ≠ 0 ∧
            (slotVal E.geo c.ip c.fs.buf.data (ρ.child i) = 0 → zero →
              c'.fs.buf.data (c'.entry b i) = zeroBlock) := by
        intro c' hip hfree hd htx
        have he : c'.entry b i = w := by
          simp [Ctx.entry, hd, Nat.mod_eq_of_lt (lt_of_lt_of_le hlt hE.size_le)]
        rw [he]
        have hS' : ∀ τ, τ.Valid E.geo → slotVal E.geo c'.ip c'.fs.buf.data τ =
            if τ = ρ.child i then w else slotVal E.geo c.ip c.fs.buf.data τ := fun τ hτ => by
          rw [hip]
          exact slotVal_setEntry E.geo hc.inj hρ hp hb hb0 (hS.trans ha) hws
            (lt_of_lt_of_le hlt hE.size_le) (fun hp' => by rw [hz hp', if_pos rfl]) hd hτ
        have hdata : ∀ x, c'.fs.buf.data x ≠ c.fs.buf.data x →
            x = w ∨ IsPtr E.geo c.ip c.fs.buf.data x := fun x hx => by
          by_cases hxb : x = b
          · exact .inr (hxb ▸ hb ▸ isPtr_of_slot E.geo hρ hp (hb ▸ hb0))
          by_cases hxw : x = w
          · exact .inl hxw
          · simp [hd, hxb, hxw] at hx
        obtain ⟨hg, hwf⟩ := Grows.of_fill (A := (· = ρ.child i)) hc hσ rfl (hS.trans ha) hw
          hfree hS' hdata ⟨c.ip.addrs, by rw [hip]⟩ htx
        refine ⟨hg, hwf, by simpa using hS' _ hσ, hw0, fun _ hzero => ?_⟩
        simp [hd, hbw.symm, hzero]
      have hd : ∀ x, (c.takeBlock w trans zero).fs.buf.data x = if x = w then
          (if zero then zeroBlock else c.fs.buf.data w) else c.fs.buf.data x :=
        Ctx.takeBlock_data c w trans zero
      cases trans <;>
        simp only [hlt, if_true, writeWord, logBlock, FsM.modify_apply, FsM.get_apply,
          FsM.pure_apply, EStateM.Result.ok.injEq] at h <;> obtain ⟨rfl, rfl⟩ := h <;>
        exact key _ (by simp) (by simp) (fun x => by
          by_cases hxb : x = b <;> simp [hxb, hd, hbw, Function.update_noteq]) (by simp)
    · simp [hlt] at h
  · simp only [ensureEntry, FsM.bind_apply, FsM.get_apply, ha, if_false, FsM.pure_apply,
      EStateM.Result.ok.injEq] at h
    obtain ⟨rfl, rfl⟩ := h
    exact ⟨.refl _ _, hc, hS, ha, fun h0 => absurd (hS ▸ h0) ha⟩

/-- The slot of a logical block in the indirect tier is under the tier root. -/
theorem dataSlot_ind {G : Geometry} {bn : Nat} (h1 : ¬ bn < G.ndirect)
    (h2 : bn - G.ndirect < G.nindirect) : dataSlot G bn = Slot.indRoot.child (bn - G.ndirect) := by
  simp [dataSlot, h1, h2, Slot.child]

/-- The slot of a logical block in the doubly-indirect tier, two levels under its root. -/
theorem dataSlot_dbl {G : Geometry} {bn : Nat} (h1 : ¬ bn < G.ndirect)
    (h2 : ¬ bn - G.ndirect < G.nindirect) :
    dataSlot G bn = (Slot.dbl1 ((bn - G.ndirect - G.nindirect) / G.nindirect)).child
      ((bn - G.ndirect - G.nindirect) % G.nindirect) := by
  simp [dataSlot, h1, h2, Slot.child]

/-- A `bmap` of a logical block in range that returns `b` filled only slots on the path to
the block's data slot, which now holds `b`; a data block it took is zeroed when
`zero_on_alloc`. -/
theorem bmap_ok (hE : E.Sane) (hc : Wf E.geo c) {bn b : Nat} (hbn : bn < E.geo.maxfile)
    (h : bmap E bn trans zero c = .ok b c') :
    Grows E.geo (· ∈ (dataSlot E.geo bn).path) c c' ∧ Wf E.geo c' ∧
      slotVal E.geo c'.ip c'.fs.buf.data (dataSlot E.geo bn) = b ∧ b ≠ 0 ∧
      (slotVal E.geo c.ip c.fs.buf.data (dataSlot E.geo bn) = 0 → zero →
        c'.fs.buf.data b = zeroBlock) := by
  have hv := dataSlot_valid E.geo hbn
  unfold bmap at h
  split at h
  · rename_i h1
    have hd : dataSlot E.geo bn = .direct bn := by simp [dataSlot, h1]
    rw [hd] at hv ⊢
    obtain ⟨g, w, hs, hb, hz⟩ := ensureAddr_ok hE hc hv rfl (by simp [Slot.isPtr]) h
    exact ⟨g.mono fun τ e => by simp [e, Slot.path], w, hs, hb, hz⟩
  split at h
  · rename_i h1 h2
    rw [dataSlot_ind h1 h2] at hv ⊢
    obtain ⟨ind, c₁, h₁, h₂⟩ := FsM.bind_ok h
    obtain ⟨g₁, w₁, s₁, b₁, -⟩ :=
      ensureAddr_ok hE hc (σ := .indRoot) trivial rfl (fun _ => rfl) h₁
    obtain ⟨g₂, w₂, s₂, b₂, z₂⟩ := ensureEntry_ok hE w₁ (ρ := .indRoot) trivial rfl s₁ b₁ hv
      (by simp [Slot.isPtr, Slot.child]) h₂
    exact ⟨(g₁.mono fun τ e => by simp [e, Slot.path, Slot.child]).trans
      (g₂.mono fun τ e => by simp [e, Slot.path, Slot.child]), w₂, s₂, b₂,
      fun h0 => z₂ ((g₁.slot_keep hv (by simp [Slot.child])).trans h0)⟩
  split at h
  · simp at h
  rename_i h1 h2 _
  rw [dataSlot_dbl h1 h2] at hv ⊢
  obtain ⟨d1, c₁, h₁, h'⟩ := FsM.bind_ok h
  obtain ⟨d2, c₂, h₂, h₃⟩ := FsM.bind_ok h'
  obtain ⟨g₁, w₁, s₁, b₁, -⟩ :=
    ensureAddr_ok hE hc (σ := .dblRoot) trivial rfl (fun _ => rfl) h₁
  obtain ⟨g₂, w₂, s₂, b₂, -⟩ :=
    ensureEntry_ok hE w₁ (ρ := .dblRoot) trivial rfl s₁ b₁ hv.1 (fun _ => rfl) h₂
  obtain ⟨g₃, w₃, s₃, b₃, z₃⟩ := ensureEntry_ok hE w₂
    (ρ := .dbl1 ((bn - E.geo.ndirect - E.geo.nindirect) / E.geo.nindirect)) hv.1 rfl s₂ b₂ hv
    (by simp [Slot.isPtr, Slot.child]) h₃
  refine ⟨((g₁.mono fun τ e => by simp [e, Slot.path, Slot.child]).trans
    (g₂.mono fun τ e => by simp [e, Slot.path, Slot.child])).trans
    (g₃.mono fun τ e => by simp [e, Slot.path, Slot.child]), w₃, s₃, b₃, fun h0 => z₃ ?_⟩
  rw [g₂.slot_keep hv (by simp [Slot.child]), g₁.slot_keep hv (by simp [Slot.child]), h0]

/-- A `bmap` of a logical block in range that fails ran out of blocks, having filled only
pointer slots on the path to the block's data slot, and leaves the allocator with no block to
give. -/
theorem bmap_error (hE : E.Sane) (hc : Wf E.geo c) {bn : Nat} {e : Fault}
    (hbn : bn < E.geo.maxfile) (h : bmap E bn trans zero c = .error e c') :
    e = .outOfBlocks ∧ Grows E.geo (fun τ => τ.isPtr ∧ τ ∈ (dataSlot E.geo bn).path) c c' ∧
      Wf E.geo c' ∧ E.size ≤ E.allocBlock c'.fs.free := by
  unfold bmap at h
  split at h
  · obtain ⟨rfl, rfl, hf⟩ := ensureAddr_error h
    exact ⟨rfl, .refl _ _, hc, hf⟩
  split at h
  · rename_i h1 h2
    rw [dataSlot_ind h1 h2]
    rcases FsM.bind_error h with h₁ | ⟨ind, c₁, h₁, h₂⟩
    · obtain ⟨rfl, rfl, hf⟩ := ensureAddr_error h₁
      exact ⟨rfl, .refl _ _, hc, hf⟩
    · obtain ⟨g₁, w₁, -⟩ := ensureAddr_ok hE hc (σ := .indRoot) trivial rfl (fun _ => rfl) h₁
      obtain ⟨rfl, rfl, hf⟩ := ensureEntry_error h₂
      exact ⟨rfl, g₁.mono fun τ e => by simp [e, Slot.isPtr, Slot.path, Slot.child], w₁, hf⟩
  split at h
  · rename_i h1 h2 h3
    simp only [Geometry.maxfile] at hbn
    omega
  rename_i h1 h2 _
  have hv1 : (Slot.dbl1 ((bn - E.geo.ndirect - E.geo.nindirect) / E.geo.nindirect)).Valid
      E.geo := (dataSlot_dbl h1 h2 ▸ dataSlot_valid E.geo hbn).1
  rw [dataSlot_dbl h1 h2]
  rcases FsM.bind_error h with h₁ | ⟨d1, c₁, h₁, h'⟩
  · obtain ⟨rfl, rfl, hf⟩ := ensureAddr_error h₁
    exact ⟨rfl, .refl _ _, hc, hf⟩
  obtain ⟨g₁, w₁, s₁, b₁, -⟩ := ensureAddr_ok hE hc (σ := .dblRoot) trivial rfl (fun _ => rfl) h₁
  rcases FsM.bind_error h' with h₂ | ⟨d2, c₂, h₂, h₃⟩
  · obtain ⟨rfl, rfl, hf⟩ := ensureEntry_error h₂
    exact ⟨rfl, g₁.mono fun τ e => by simp [e, Slot.isPtr, Slot.path, Slot.child], w₁, hf⟩
  obtain ⟨g₂, w₂, -⟩ :=
    ensureEntry_ok hE w₁ (ρ := .dblRoot) trivial rfl s₁ b₁ hv1 (fun _ => rfl) h₂
  obtain ⟨rfl, rfl, hf⟩ := ensureEntry_error h₃
  exact ⟨rfl, (g₁.mono fun τ e => by simp [e, Slot.isPtr, Slot.path, Slot.child]).trans
    (g₂.mono fun τ e => by simp [e, Slot.isPtr, Slot.path, Slot.child]), w₂, hf⟩

/-- `bmap` of logical block `NDIRECT + 1` on an inode with no blocks, when the allocator has
two blocks to give: the indirect block, then the data block under its entry 1, which `bmap`
returns. -/
theorem bmap_empty_ind (hE : E.Sane) (hn : 2 ≤ E.geo.nindirect)
    (hempty : ∀ k, c.ip.addrs k = 0) (h1 : E.allocBlock c.fs.free < E.size)
    (h2 : E.allocBlock (Function.update c.fs.free (E.allocBlock c.fs.free) false) < E.size)
    (trans zero : Bool) : ∃ c', bmap E (E.geo.ndirect + 1) trans zero c =
      .ok (E.allocBlock (Function.update c.fs.free (E.allocBlock c.fs.free) false)) c' := by
  have hlt := lt_of_lt_of_le h2 hE.size_le
  have hyr : E.allocBlock (Function.update c.fs.free (E.allocBlock c.fs.free) false) ≠
      E.allocBlock c.fs.free := fun h => by
    have := hE.allocFree _ h2
    rw [h] at this
    simp at this
  have hr : 1 < E.geo.nindirect := hn
  cases trans <;> simp [bmap, ensureAddr, ensureEntry, hempty, hr, balloc_apply, h1, h2,
    Ctx.entry, Ctx.takeBlock_data, writeWord, hyr, hyr.symm, Nat.mod_eq_of_lt hlt, logBlock]

end Calls

end Sv6Fs
