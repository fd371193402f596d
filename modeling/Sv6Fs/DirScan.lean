import Sv6Fs.Dir

/-! # What `dir_init` decodes

`dir_init` reads a directory's records one block at a time, a record every
`sizeof(dirent)` bytes from the block's start. When `sizeof(dirent)` divides `BSIZE` the
records of consecutive blocks are the consecutive records of the file, so the index it
builds depends only on the file's bytes: each name of a live record (`inum ≠ 0`) maps to
its first live record (`dirIndexOf`), `insert` keeping the entry it already has.

* `scanRecords_add`, `scanRecords_shift`: the scan of a run of records, split in two, or
  read from another buffer holding the same bytes.
* `scanRecords_eq_dirIndexOf`: the scan of the file's first `n` records.
* `dirIndexOf_tombstone`: when live names are distinct, overwriting a live record with
  one of inode number 0 (what `dirunlink` writes) removes exactly its name.
-/

namespace Sv6Fs

section Scan

variable (G : Geometry)

/-- The inode number of record `r` of the bytes `F`. -/
def recInum (F : Nat → UInt8) (r : Nat) : Nat := recordInum F (r * G.direntSize)

/-- The index key of record `r` of the bytes `F`. -/
def recKey (F : Nat → UInt8) (r : Nat) : List UInt8 :=
  strbuf G (recordName G F (r * G.direntSize))

/-- Record `r` of `F` is live and carries the name `key`. -/
def recLive (F : Nat → UInt8) (key : List UInt8) (r : Nat) : Bool :=
  recInum G F r ≠ 0 ∧ recKey G F r = key

/-- The index of the first `n` records of `F`: each name of a live record maps to its
first live record's inode number and offset. -/
def dirIndexOf (F : Nat → UInt8) (n : Nat) : DirIndex := fun key =>
  ((List.range n).find? (recLive G F key)).map fun r => ⟨recInum G F r, r * G.direntSize⟩

/-- No two live records among the first `n` carry one name. -/
def UniqueKeys (F : Nat → UInt8) (n : Nat) : Prop :=
  ∀ r₁ < n, ∀ r₂ < n, recInum G F r₁ ≠ 0 ∧ recInum G F r₂ ≠ 0 ∧ recKey G F r₁ = recKey G F r₂ →
    r₁ = r₂

instance (F : Nat → UInt8) (n : Nat) : Decidable (UniqueKeys G F n) :=
  inferInstanceAs (Decidable (∀ r₁ < n, ∀ r₂ < n,
    recInum G F r₁ ≠ 0 ∧ recInum G F r₂ ≠ 0 ∧ recKey G F r₁ = recKey G F r₂ → r₁ = r₂))

variable {G}

theorem scanRecords_succ (data : Block) (n k : Nat) (d : DirIndex) (o : Nat) :
    scanRecords G data (n + 1) k d o = scanRecords G data n (k + 1)
      (if recordInum data (k * G.direntSize) ≠ 0 then
        d.insertOrKeep (strbuf G (recordName G data (k * G.direntSize)))
          ⟨recordInum data (k * G.direntSize), o⟩
      else d) (o + G.direntSize) := rfl

/-- A scan of `n₁ + n₂` records is a scan of `n₁`, then of `n₂` more. -/
theorem scanRecords_add (data : Block) (n₂ : Nat) :
    ∀ n₁ k d o, scanRecords G data (n₁ + n₂) k d o =
      scanRecords G data n₂ (k + n₁) (scanRecords G data n₁ k d o) (o + n₁ * G.direntSize)
  | 0, k, d, o => by simp [scanRecords]
  | n₁ + 1, k, d, o => by
    rw [Nat.add_right_comm, scanRecords_succ, scanRecords_add data n₂ n₁, scanRecords_succ,
      Nat.succ_mul, show k + 1 + n₁ = k + (n₁ + 1) by omega, Nat.add_assoc o,
      Nat.add_comm G.direntSize]

/-- A record is read from its `sizeof(dirent)` bytes only. -/
theorem record_congr {D F : Nat → UInt8} {p q : Nat}
    (h : ∀ j < G.direntSize, D (p + j) = F (q + j)) :
    recordInum D p = recordInum F q ∧ recordName G D p = recordName G F q := by
  have hd : ∀ j < 4, D (p + j) = F (q + j) := fun j hj =>
    h j (by simp only [Geometry.direntSize]; omega)
  refine ⟨?_, ?_⟩
  · simp only [recordInum]
    rw [← Nat.add_zero p, ← Nat.add_zero q, hd 0 (by omega), Nat.add_zero, Nat.add_zero,
      hd 1 (by omega), hd 2 (by omega), hd 3 (by omega)]
  · simp only [recordName]
    refine List.map_congr_left fun j hj => ?_
    have := h (4 + j) (by simp only [Geometry.direntSize]; simp at hj; omega)
    rwa [← Nat.add_assoc, ← Nat.add_assoc] at this

/-- Scans of two buffers that hold the same bytes at the records they read agree. -/
theorem scanRecords_shift {D F : Nat → UInt8} :
    ∀ n k k' d o, (∀ j < n * G.direntSize, D (k * G.direntSize + j) = F (k' * G.direntSize + j)) →
      scanRecords G D n k d o = scanRecords G F n k' d o
  | 0, _, _, _, _, _ => rfl
  | n + 1, k, k', d, o, h => by
    obtain ⟨hi, hn⟩ := record_congr (G := G) (D := D) (F := F) fun j hj =>
      h j (by rw [Nat.succ_mul]; omega)
    rw [scanRecords_succ, scanRecords_succ, hi, hn]
    refine scanRecords_shift n (k + 1) (k' + 1) _ _ fun j hj => ?_
    have := h (G.direntSize + j) (by rw [Nat.succ_mul]; omega)
    rwa [Nat.succ_mul, Nat.succ_mul, Nat.add_assoc, Nat.add_assoc]

theorem dirIndexOf_zero (F : Nat → UInt8) : dirIndexOf G F 0 = DirIndex.empty := rfl

theorem insertOrKeep_apply (d : DirIndex) (k : List UInt8) (v : DirEntryInfo) (key : List UInt8) :
    d.insertOrKeep k v key = if d k = none ∧ key = k then some v else d key := by
  unfold DirIndex.insertOrKeep DirIndex.insert
  by_cases hk : d k = none <;> by_cases hkey : key = k <;> simp [hk, hkey, Function.update_apply]

theorem recLive_iff {F : Nat → UInt8} {key : List UInt8} {r : Nat} :
    recLive G F key r = true ↔ recInum G F r ≠ 0 ∧ recKey G F r = key := by
  simp [recLive]

theorem dirIndexOf_apply (F : Nat → UInt8) (n : Nat) (key : List UInt8) :
    dirIndexOf G F n key =
      ((List.range n).find? (recLive G F key)).map fun r => ⟨recInum G F r, r * G.direntSize⟩ :=
  rfl

/-- One more record: a live record whose name has no entry yet adds it. -/
theorem dirIndexOf_succ (F : Nat → UInt8) (n : Nat) :
    dirIndexOf G F (n + 1) = if recInum G F n ≠ 0 then
      (dirIndexOf G F n).insertOrKeep (recKey G F n) ⟨recInum G F n, n * G.direntSize⟩
    else dirIndexOf G F n := by
  funext key
  by_cases h0 : recInum G F n = 0
  · have hl : recLive G F key n = false := by simp [recLive, h0]
    simp [dirIndexOf_apply, List.range_succ, List.find?_append, hl, h0]
  cases hf : (List.range n).find? (recLive G F key) with
  | some r =>
    have hk : ¬(dirIndexOf G F n (recKey G F n) = none ∧ key = recKey G F n) := fun ⟨h₁, h₂⟩ => by
      rw [← h₂, dirIndexOf_apply, hf] at h₁; cases h₁
    rw [if_pos h0, insertOrKeep_apply, if_neg hk]
    simp [dirIndexOf_apply, List.range_succ, List.find?_append, hf]
  | none =>
    have hd : dirIndexOf G F n key = none := by rw [dirIndexOf_apply, hf]; rfl
    by_cases hk : key = recKey G F n
    · subst hk
      have hl : recLive G F (recKey G F n) n = true := recLive_iff.2 ⟨h0, rfl⟩
      rw [if_pos h0, insertOrKeep_apply, if_pos ⟨hd, rfl⟩]
      simp [dirIndexOf_apply, List.range_succ, List.find?_append, hf, hl]
    · have hl : recLive G F key n = false := by simp [recLive, Ne.symm hk]
      rw [if_pos h0, insertOrKeep_apply, if_neg fun h => hk h.2, hd]
      simp [dirIndexOf_apply, List.range_succ, List.find?_append, hf, hl]

/-- `dir_init`'s scan of the first `n` records of a file. -/
theorem scanRecords_eq_dirIndexOf (F : Nat → UInt8) :
    ∀ n, scanRecords G F n 0 DirIndex.empty 0 = dirIndexOf G F n
  | 0 => rfl
  | n + 1 => by
    rw [scanRecords_add F 1 n, scanRecords_eq_dirIndexOf F n, dirIndexOf_succ, scanRecords_succ]
    simp [scanRecords, recInum, recKey]

/-- The record `dirunlink` writes has inode number 0. -/
theorem recordInum_direntBytes_zero (name : List UInt8) : recordInum (direntBytes 0 name) 0 = 0 := by
  simp [recordInum, direntBytes]

section Tombstone

variable {F F' T : Nat → UInt8} {n r₀ : Nat}

/-- Bytes `F'`: those of `F` with record `r₀` overwritten by `T`. -/
def Overwrites (G : Geometry) (F F' T : Nat → UInt8) (r₀ : Nat) : Prop :=
  ∀ p, F' p = if r₀ * G.direntSize ≤ p ∧ p < r₀ * G.direntSize + G.direntSize then
    T (p - r₀ * G.direntSize) else F p

theorem Overwrites.other (h : Overwrites G F F' T r₀) {r : Nat} (hr : r ≠ r₀) :
    recInum G F' r = recInum G F r ∧ recKey G F' r = recKey G F r := by
  have hds : ∀ a b, a < b → a * G.direntSize + G.direntSize ≤ b * G.direntSize := fun a b hab => by
    rw [← Nat.succ_mul]; exact Nat.mul_le_mul_right _ hab
  obtain ⟨h₁, h₂⟩ := record_congr (G := G) (D := F') (F := F) (p := r * G.direntSize)
    (q := r * G.direntSize) fun j hj => by
      rw [h, if_neg]
      rcases Nat.lt_or_gt_of_ne hr with hlt | hlt
      · have := hds _ _ hlt; omega
      · have := hds _ _ hlt; omega
  exact ⟨h₁, by rw [recKey, recKey, h₂]⟩

theorem Overwrites.self (h : Overwrites G F F' T r₀) (hT : recordInum T 0 = 0) :
    recInum G F' r₀ = 0 := by
  have hds : 4 ≤ G.direntSize := by simp [Geometry.direntSize]
  rw [← hT]
  refine (record_congr (G := G) (D := F') (F := T) (p := r₀ * G.direntSize) (q := 0)
    fun j hj => ?_).1
  rw [h, if_pos ⟨by omega, by omega⟩]
  congr 1
  omega

/-- Overwriting the one live record of a name with a record of inode number 0 removes the
name from the index and keeps the names distinct. -/
theorem dirIndexOf_tombstone (huniq : UniqueKeys G F n) (hr₀ : r₀ < n)
    (hlive : recInum G F r₀ ≠ 0) (h : Overwrites G F F' T r₀) (hT : recordInum T 0 = 0) :
    dirIndexOf G F' n = Function.update (dirIndexOf G F n) (recKey G F r₀) none ∧
      UniqueKeys G F' n := by
  have h₀ := h.self hT
  have hne : ∀ {r}, recInum G F' r ≠ 0 → r ≠ r₀ := fun hr e => hr (e ▸ h₀)
  refine ⟨funext fun key => ?_, fun r₁ h₁ r₂ h₂ ⟨hl₁, hl₂, hk⟩ => ?_⟩
  · by_cases hkey : key = recKey G F r₀
    · rw [hkey, Function.update_same, dirIndexOf_apply, Option.map_eq_none', List.find?_eq_none]
      intro r hr hp
      obtain ⟨hl, hk⟩ := recLive_iff.1 hp
      have hn := hne hl
      rw [(h.other hn).1] at hl
      rw [(h.other hn).2] at hk
      exact hn (huniq r (List.mem_range.1 hr) r₀ hr₀ ⟨hl, hlive, hk⟩)
    · rw [Function.update_noteq hkey, dirIndexOf_apply, dirIndexOf_apply]
      have hp : recLive G F' key = recLive G F key := funext fun r => by
        by_cases hr : r = r₀
        · subst hr; simp [recLive, h₀, Ne.symm hkey]
        · rw [recLive, recLive, (h.other hr).1, (h.other hr).2]
      rw [hp]
      refine Option.map_congr fun r hr => ?_
      obtain ⟨hl, hk⟩ := recLive_iff.1 (List.find?_some hr)
      have hr₀ : r ≠ r₀ := fun e => hkey (e ▸ hk.symm)
      rw [(h.other hr₀).1]
  · have hn₁ := hne hl₁
    have hn₂ := hne hl₂
    rw [(h.other hn₁).1] at hl₁
    rw [(h.other hn₂).1] at hl₂
    rw [(h.other hn₁).2, (h.other hn₂).2] at hk
    exact huniq r₁ h₁ r₂ h₂ ⟨hl₁, hl₂, hk⟩

end Tombstone

end Scan

end Sv6Fs
