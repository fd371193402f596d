import Sv6Fs.BufCache

/-! # The journal

`journal::flush_to_disk` commits the queued transactions in order; `commit_transaction`
walks a transaction's snapshots and, for each, writes the block's buffer back to its home
location when the buffer is dirty. The snapshots' bytes are never read: what reaches the
disk is what the buffer cache holds when the flush reaches the block. There is no journal
area and no commit record, so the flush is a sequence of single-block writes in place.

* `flushToDisk_spec`: after the flush, each logged block holds its cached bytes of the
  moment the flush began (if its buffer was dirty then), every other block is untouched,
  and each block is written at most once.
* `flush_crash_prefix`: a crash after any number of the flush's steps leaves the disk
  updated by a prefix of the flush's write sequence.
* `flush_writes_cached_not_snapshot`, `flush_crash_splits_transaction`: the snapshot law
  and the all-or-nothing law fail.
-/

namespace Sv6Fs

/-- `journal`: the transactions `add_transaction` queued, in order. -/
structure Journal where
  transactionLog : List Transaction

/-- `add_transaction(tr)`. -/
def Journal.addTransaction (j : Journal) (t : Transaction) : Journal :=
  ⟨j.transactionLog ++ [t]⟩

/-- One iteration of `commit_transaction`'s loop: `bp = buf::get(1, blocknum); if
(bp->dirty()) bp->writeback();`. -/
def commitBlock (c : BufCache) (b : Nat) : BufCache :=
  if c.dirty b then c.writeback b else c

/-- `commit_transaction()`. Its `try_guard` succeeds: every `add_block` has returned. -/
def commitTransaction (c : BufCache) (t : Transaction) : BufCache :=
  (t.blocks.map DiskBlock.blocknum).foldl commitBlock c

/-- `flush_to_disk()`: commit every queued transaction in order and empty the queue. -/
def flushToDisk (j : Journal) (c : BufCache) : Journal × BufCache :=
  (⟨[]⟩, j.transactionLog.foldl commitTransaction c)

/-- The blocks the flush visits, one per snapshot, in the order it visits them. -/
def flushSteps (j : Journal) : List Nat :=
  j.transactionLog.flatMap fun t => t.blocks.map DiskBlock.blocknum

theorem foldl_commitTransaction (ts : List Transaction) (c : BufCache) :
    ts.foldl commitTransaction c =
      (ts.flatMap fun t => t.blocks.map DiskBlock.blocknum).foldl commitBlock c := by
  induction ts generalizing c with
  | nil => rfl
  | cons t ts ih => simp [List.flatMap_cons, List.foldl_append, ih, commitTransaction]

theorem flushToDisk_eq_steps (j : Journal) (c : BufCache) :
    (flushToDisk j c).2 = (flushSteps j).foldl commitBlock c :=
  foldl_commitTransaction _ c

/-! ## The writes a flush issues -/

/-- The disk writes of the steps `bs` from buffer cache `c`, with the cache after them. -/
def stepWrites : BufCache → List Nat → List (Nat × Block) × BufCache
  | c, [] => ([], c)
  | c, b :: bs =>
    let r := stepWrites (commitBlock c b) bs
    (if c.dirty b then (b, c.data b) :: r.1 else r.1, r.2)

/-- A list of block writes applied to a disk in order. -/
def applyWrites (d : Nat → Block) : List (Nat × Block) → Nat → Block
  | [] => d
  | (b, x) :: ws => applyWrites (Function.update d b x) ws

/-- The writes `flush_to_disk` issues, in order. -/
def flushWrites (j : Journal) (c : BufCache) : List (Nat × Block) :=
  (stepWrites c (flushSteps j)).1

theorem stepWrites_snd (c : BufCache) (bs : List Nat) :
    (stepWrites c bs).2 = bs.foldl commitBlock c := by
  induction bs generalizing c with
  | nil => rfl
  | cons b bs ih => simp [stepWrites, ih]

theorem commitBlock_data (c : BufCache) (b : Nat) : (commitBlock c b).data = c.data := by
  unfold commitBlock; split <;> rfl

theorem commitBlock_disk (c : BufCache) (b : Nat) :
    (commitBlock c b).disk = if c.dirty b then Function.update c.disk b (c.data b) else c.disk := by
  unfold commitBlock; split <;> simp_all

theorem commitBlock_dirty (c : BufCache) (b x : Nat) :
    (commitBlock c b).dirty x = (c.dirty x && x ≠ b) := by
  unfold commitBlock
  by_cases hx : x = b
  · subst hx; split <;> simp_all
  · split <;> simp [hx]

/-- The disk after steps `bs` is the disk before, updated by the writes they issue. -/
theorem stepWrites_disk (c : BufCache) (bs : List Nat) :
    (stepWrites c bs).2.disk = applyWrites c.disk (stepWrites c bs).1 := by
  induction bs generalizing c with
  | nil => rfl
  | cons b bs ih =>
    simp only [stepWrites, ih (commitBlock c b), commitBlock_disk, commitBlock_data]
    split <;> rfl

/-- A step writes only a block it visits whose buffer is dirty, with the bytes the cache
held when the flush began. -/
theorem mem_stepWrites {c : BufCache} {bs : List Nat} {w : Nat × Block}
    (hw : w ∈ (stepWrites c bs).1) : w.1 ∈ bs ∧ c.dirty w.1 = true ∧ w.2 = c.data w.1 := by
  induction bs generalizing c w with
  | nil => simp [stepWrites] at hw
  | cons b bs ih =>
    simp only [stepWrites] at hw
    have hrest : ∀ w ∈ (stepWrites (commitBlock c b) bs).1,
        w.1 ∈ b :: bs ∧ c.dirty w.1 = true ∧ w.2 = c.data w.1 := fun w hw' => by
      obtain ⟨h1, h2, h3⟩ := ih hw'
      simp only [commitBlock_dirty, Bool.and_eq_true, decide_eq_true_eq] at h2
      exact ⟨List.mem_cons_of_mem _ h1, h2.1, by rw [h3, commitBlock_data]⟩
    split at hw
    · rcases List.mem_cons.1 hw with rfl | hw
      · exact ⟨List.mem_cons_self _ _, ‹_›, rfl⟩
      · exact hrest w hw
    · exact hrest w hw

/-- No block is written twice in one flush. -/
theorem stepWrites_nodup (c : BufCache) (bs : List Nat) :
    ((stepWrites c bs).1.map Prod.fst).Nodup := by
  induction bs generalizing c with
  | nil => simp [stepWrites]
  | cons b bs ih =>
    simp only [stepWrites]
    split
    · refine List.nodup_cons.2 ⟨fun hb => ?_, ih _⟩
      obtain ⟨w, hw, rfl⟩ := List.mem_map.1 hb
      have := (mem_stepWrites hw).2.1
      simp [commitBlock_dirty] at this
    · exact ih _

theorem applyWrites_apply {d : Nat → Block} {ws : List (Nat × Block)} (hnd : (ws.map Prod.fst).Nodup)
    (x : Nat) : applyWrites d ws x = ((ws.find? (·.1 = x)).map Prod.snd).getD (d x) := by
  induction ws generalizing d with
  | nil => rfl
  | cons w ws ih =>
    obtain ⟨b, v⟩ := w
    simp only [List.map_cons, List.nodup_cons] at hnd
    simp only [applyWrites, ih hnd.2, List.find?_cons]
    by_cases hbx : b = x
    · subst hbx
      have : ws.find? (·.1 = b) = none :=
        List.find?_eq_none.2 fun w hw h => hnd.1 (List.mem_map.2 ⟨w, hw, by simpa using h⟩)
      simp [this]
    · simp [hbx, Function.update_noteq (Ne.symm hbx)]

/-- Each block appears in the flush's writes exactly when it is logged and dirty. -/
theorem mem_stepWrites_iff (c : BufCache) (bs : List Nat) (x : Nat) :
    x ∈ (stepWrites c bs).1.map Prod.fst ↔ x ∈ bs ∧ c.dirty x = true := by
  induction bs generalizing c with
  | nil => simp [stepWrites]
  | cons b bs ih =>
    simp only [stepWrites]
    have ih' := ih (commitBlock c b)
    simp only [commitBlock_dirty, Bool.and_eq_true, decide_eq_true_eq] at ih'
    by_cases hxb : x = b
    · subst hxb; split <;> simp_all
    · split <;> simp [ih', hxb]

end Sv6Fs

namespace Sv6Fs

/-! ## What a flush leaves on disk -/

theorem stepWrites_append (c : BufCache) (xs ys : List Nat) :
    stepWrites c (xs ++ ys) =
      ((stepWrites c xs).1 ++ (stepWrites (stepWrites c xs).2 ys).1,
        (stepWrites (stepWrites c xs).2 ys).2) := by
  induction xs generalizing c with
  | nil => rfl
  | cons b xs ih =>
    rw [List.cons_append]
    simp only [stepWrites, ih]
    split <;> simp

/-- `flush_to_disk` empties the queue and writes, once each and with the bytes the cache
held when the flush began, exactly the logged blocks whose buffers were dirty; every other
block keeps its disk contents. -/
theorem flushToDisk_spec (j : Journal) (c : BufCache) :
    (flushToDisk j c).1.transactionLog = [] ∧
    ((flushWrites j c).map Prod.fst).Nodup ∧
    (∀ x, x ∈ (flushWrites j c).map Prod.fst ↔ x ∈ flushSteps j ∧ c.dirty x = true) ∧
    (∀ w ∈ flushWrites j c, w.2 = c.data w.1) ∧
    ∀ x, (flushToDisk j c).2.disk x =
      if x ∈ flushSteps j ∧ c.dirty x = true then c.data x else c.disk x := by
  refine ⟨rfl, stepWrites_nodup _ _, mem_stepWrites_iff _ _, fun w hw => (mem_stepWrites hw).2.2,
    fun x => ?_⟩
  rw [flushToDisk_eq_steps, ← stepWrites_snd, stepWrites_disk,
    applyWrites_apply (stepWrites_nodup _ _)]
  split
  · rename_i hx
    obtain ⟨w, hw, rfl⟩ := List.mem_map.1 ((mem_stepWrites_iff _ _ _).2 hx)
    obtain ⟨v, hv⟩ : ∃ v, (stepWrites c (flushSteps j)).1.find? (·.1 = w.1) = some v :=
      Option.isSome_iff_exists.1 (List.find?_isSome.2 ⟨w, hw, by simp⟩)
    have hv1 : v.1 = w.1 := by simpa using List.find?_some hv
    simp [hv, (mem_stepWrites (List.mem_of_find?_eq_some hv)).2.2, hv1]
  · rename_i hx
    have : (stepWrites c (flushSteps j)).1.find? (·.1 = x) = none :=
      List.find?_eq_none.2 fun w hw h =>
        hx ((mem_stepWrites_iff _ _ _).1 (List.mem_map.2 ⟨w, hw, by simpa using h⟩))
    simp [this]

/-- The bytes of each snapshot are not what a flush writes: a block logged as zeros and
changed in the cache afterwards (by a call whose transaction is not in the journal)
reaches the disk with its new bytes. -/
theorem flush_writes_cached_not_snapshot :
    let c₁ := (⟨fun _ => zeroBlock, fun _ => false, fun _ => zeroBlock⟩ : BufCache).write 7 zeroBlock
    let t := Transaction.empty.addBlock (c₁.snapshot 7)
    let c₂ := c₁.write 7 (fun _ => 1)
    (flushToDisk ⟨[t]⟩ c₂).2.disk 7 0 ≠ (c₁.snapshot 7).blockdata 0 := by
  simp only
  rw [(flushToDisk_spec _ _).2.2.2.2 7]
  simp [flushSteps, Transaction.empty, zeroBlock]

/-! ## A crash during the flush -/

/-- The buffer cache after the first `k` steps of the flush: what a crash at that point
leaves behind. -/
def flushCrash (j : Journal) (c : BufCache) (k : Nat) : BufCache :=
  ((flushSteps j).take k).foldl commitBlock c

/-- A crash at any point of the flush leaves the disk updated by a prefix of the flush's
write sequence: the writes land one by one, in place, in journal order. -/
theorem flush_crash_prefix (j : Journal) (c : BufCache) (k : Nat) :
    ∃ m, (flushCrash j c k).disk = applyWrites c.disk ((flushWrites j c).take m) := by
  have hsplit := stepWrites_append c ((flushSteps j).take k) ((flushSteps j).drop k)
  rw [List.take_append_drop] at hsplit
  refine ⟨(stepWrites c ((flushSteps j).take k)).1.length, ?_⟩
  rw [flushCrash, ← stepWrites_snd, stepWrites_disk, flushWrites, hsplit,
    List.take_left]

/-- All snapshots of a list of transactions, applied to a disk in journal order. -/
def applySnapshots (d : Nat → Block) (ts : List Transaction) : Nat → Block :=
  applyWrites d (ts.flatMap fun t => t.blocks.map fun b => (b.blocknum, b.blockdata))

/-- A crash can leave one transaction half applied: of a transaction that logged blocks 5
and 6, a crash after the flush's first write has block 5 new and block 6 old, which is
neither the disk before the transaction nor the disk after it. -/
theorem flush_crash_splits_transaction :
    let c₀ : BufCache := ⟨fun _ => zeroBlock, fun _ => false, fun _ => zeroBlock⟩
    let c₁ := (c₀.write 5 (fun _ => 1)).write 6 (fun _ => 1)
    let t := (Transaction.empty.addBlock (c₁.snapshot 5)).addBlock (c₁.snapshot 6)
    ¬ ∃ i ≤ 1, (flushCrash ⟨[t]⟩ c₁ 1).disk = applySnapshots c₁.disk ([t].take i) := by
  simp only
  rintro ⟨i, hi, h⟩
  rcases (show i = 0 ∨ i = 1 by omega) with rfl | rfl
  · have := congrFun (congrFun h 5) 0
    simp [flushCrash, flushSteps, commitBlock, applySnapshots, applyWrites, Transaction.empty,
      zeroBlock] at this
  · have := congrFun (congrFun h 6) 0
    simp [flushCrash, flushSteps, commitBlock, applySnapshots, applyWrites, Transaction.empty,
      zeroBlock] at this

end Sv6Fs
