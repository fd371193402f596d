import Mathlib.Data.List.Basic

/-! # The inode latch

`ilock` and `iunlock` build a single-writer, many-reader latch out of the inode's `busy`
flag and `readbusy` count, both guarded by the inode spinlock, with waiters asleep on the
inode's condition variable. `iget` creates an inode with `busy = true, readbusy = 1`
before it publishes it, and unlocks it after `init` has set `valid`.

Every write of `busy` and `readbusy` after publication happens inside the spinlock, so
each critical section is one step here; `iunlock`'s test of the two fields before it takes
the lock, and `ilock`'s test of `valid` after it releases it, are steps of their own. A
sleeping thread may wake at any moment (`wake_all`, or a spurious wake-up): that allows
more interleavings than the condition variable does, so safety shown here holds of the
code.

* `latch_exclusion`: in every reachable state, for any number of threads, either nobody
  holds the latch, or one writer alone holds it, or only readers do; `readbusy` is the
  number of holders and `busy` is set exactly while a writer holds it.
* `latch_no_panic`: neither `iunlock`'s "not locked" panic nor `ilock`'s "valid flag is
  false" panic is reachable.
-/

namespace Sv6Fs.Latch

/-- Where a thread is in the latch code: outside `ilock` and `iunlock`, not holding the
latch (`idle`); in `ilock(ip, WRITELOCK)` at the test of `busy || readbusy` under the
spinlock (`waitW`), asleep on `ip->cv` in the write loop (`sleepW`), past the loop and the
spinlock at `if (!ip->valid)` (`checkW`), returned (`holdW`); the same points of
`ilock(ip, READLOCK)` around its test of `busy` (`waitR`, `sleepR`, `checkR`, `holdR`); in
`iunlock` past its test, holding the latch for write or for read (`unlockW`, `unlockR`);
the thread that created the inode in `iget`, before `init` returns (`create`); or a thread
that called `panic` (`panicked`). -/
inductive Pc where
  | idle
  | waitW
  | sleepW
  | checkW
  | holdW
  | unlockW
  | waitR
  | sleepR
  | checkR
  | holdR
  | unlockR
  | create
  | panicked
  deriving DecidableEq, Repr

namespace Pc

/-- The thread holds the latch for write. -/
def isWriter : Pc → Bool
  | .checkW | .holdW | .unlockW | .create => true
  | _ => false

/-- The thread holds the latch for read. -/
def isReader : Pc → Bool
  | .checkR | .holdR | .unlockR => true
  | _ => false

/-- The thread is the creator in `iget`. -/
def isCreate : Pc → Bool
  | .create => true
  | _ => false

/-- The thread has panicked. -/
def isPanicked : Pc → Bool
  | .panicked => true
  | _ => false

end Pc

/-- The latch fields of one inode. -/
structure Fields where
  busy : Bool
  readbusy : Int
  valid : Bool
  deriving DecidableEq

/-- The step of a thread at `p`: where it goes, and the fields after it. -/
def next (f : Fields) : Pc → Pc × Fields
  | .waitW => if f.busy ∨ f.readbusy ≠ 0 then (.sleepW, f)
      else (.checkW, { f with busy := true, readbusy := f.readbusy + 1 })
  | .sleepW => (.waitW, f)
  | .checkW => (if f.valid then .holdW else .panicked, f)
  | .waitR => if f.busy then (.sleepR, f) else (.checkR, { f with readbusy := f.readbusy + 1 })
  | .sleepR => (.waitR, f)
  | .checkR => (if f.valid then .holdR else .panicked, f)
  | .holdW => (if f.readbusy = 0 ∧ ¬ f.busy then .panicked else .unlockW, f)
  | .holdR => (if f.readbusy = 0 ∧ ¬ f.busy then .panicked else .unlockR, f)
  | .unlockW | .unlockR => (.idle, { f with readbusy := f.readbusy - 1, busy := false })
  | .create => (.holdW, { f with valid := true })
  | .idle => (.idle, f)
  | .panicked => (.panicked, f)

/-- The inode's latch fields and the threads using it. -/
structure St where
  fields : Fields
  threads : List Pc

/-- One step of one thread: an idle thread calls `ilock` for write or for read, any other
thread takes its next step. -/
inductive Step : St → St → Prop
  | ilock {s : St} {i : Nat} (write : Bool) (h : s.threads[i]? = some .idle) :
      Step s ⟨s.fields, s.threads.set i (if write then .waitW else .waitR)⟩
  | run {s : St} {i : Nat} {p : Pc} (h : s.threads[i]? = some p) :
      Step s ⟨(next s.fields p).2, s.threads.set i (next s.fields p).1⟩

/-- The starting states: an inode already initialised and unlocked, or one that `iget`
has just created, locked for write, before `init`. -/
def Init (s : St) : Prop :=
  (s.threads.all (· = .idle) ∧ s.fields = ⟨false, 0, true⟩) ∨
  (s.threads.countP Pc.isCreate = 1 ∧ s.threads.all (fun p => p = .idle ∨ p = .create) ∧
    s.fields = ⟨true, 1, false⟩)

inductive Reachable : St → Prop
  | init {s : St} : Init s → Reachable s
  | step {s s' : St} : Reachable s → Step s s' → Reachable s'

/-! ## The invariant

The invariant reads four counts of the thread list. A step moves one thread from `p` to
`q`, so each count loses `p`'s share and gains `q`'s; `Good` is the invariant over the
counts, and `good_next` checks it against `next` one program point at a time. -/

/-- The latch invariant over the fields and the numbers of writers `w`, readers `r`,
creators `c` and panicked threads `x`. -/
structure Good (f : Fields) (w r c x : Nat) : Prop where
  readbusy_eq : f.readbusy = w + r
  busy_iff : f.busy = true ↔ 0 < w
  excl : w = 0 ∨ (w = 1 ∧ r = 0)
  valid : f.valid = false → c = 1
  no_panic : x = 0

/-- `1` for `true`, `0` for `false`. -/
def ind (b : Bool) : Nat := if b then 1 else 0

/-- The invariant of a state: `Good` of its counts. -/
def Inv (s : St) : Prop :=
  Good s.fields (s.threads.countP Pc.isWriter) (s.threads.countP Pc.isReader)
    (s.threads.countP Pc.isCreate) (s.threads.countP Pc.isPanicked)

theorem countP_set_add {l : List Pc} {i : Nat} {p : Pc} (h : l[i]? = some p) (f : Pc → Bool)
    (q : Pc) : (l.set i q).countP f + ind (f p) = l.countP f + ind (f q) := by
  obtain ⟨hi, rfl⟩ := List.getElem?_eq_some_iff.1 h
  have := List.boole_getElem_le_countP f l i hi
  rw [List.countP_set f l i q hi]
  simp only [ind]
  omega

theorem countP_set_eq {l : List Pc} {i : Nat} {p q : Pc} (h : l[i]? = some p) {f : Pc → Bool}
    (hf : f p = f q) : (l.set i q).countP f = l.countP f := by
  have := countP_set_add h f q
  rw [hf] at this
  omega

theorem countP_create_le (l : List Pc) : l.countP Pc.isCreate ≤ l.countP Pc.isWriter :=
  List.countP_mono_left fun p _ => by cases p <;> decide

/-- One step of a thread from `p` to `q` keeps `Good`, with each count moved by `p`'s and
`q`'s shares; `c ≤ w` holds before and after because a creator is a writer. -/
theorem good_next {f f' : Fields} {p q : Pc} {w r c x w' r' c' x' : Nat}
    (hn : next f p = (q, f')) (hg : Good f w r c x) (hc : c ≤ w) (hc' : c' ≤ w')
    (hw : w' + ind p.isWriter = w + ind q.isWriter)
    (hr : r' + ind p.isReader = r + ind q.isReader)
    (hcr : c' + ind p.isCreate = c + ind q.isCreate)
    (hx : x' + ind p.isPanicked = x + ind q.isPanicked) : Good f' w' r' c' x' := by
  obtain ⟨h1, h2, h3, h4, h5⟩ := hg
  cases p <;> simp only [next] at hn <;> (try split at hn) <;> injection hn with hq hf <;>
    subst hq hf <;> simp only [ind, Pc.isWriter, Pc.isReader, Pc.isCreate, Pc.isPanicked,
      if_true, if_false, Bool.false_eq_true] at hw hr hcr hx
  case idle | sleepW | sleepR | panicked | waitW.isTrue | waitR.isTrue | checkW.isTrue |
      checkR.isTrue | holdW.isFalse | holdR.isFalse =>
    -- the thread's shares do not change, nor do the fields
    obtain ⟨rfl, rfl, rfl, rfl⟩ : w' = w ∧ r' = r ∧ c' = c ∧ x' = x := by omega
    exact ⟨h1, h2, h3, h4, h5⟩
  case checkW.isFalse hb | checkR.isFalse hb =>
    -- an invalid inode is held for write by its creator, so no other thread holds it
    exact absurd (h4 (by simpa using hb)) (by omega)
  case holdW.isTrue hb | holdR.isTrue hb =>
    -- the thread holds the latch, so `busy` or `readbusy` shows it
    exact (hb.2 (h2.2 (by omega))).elim
  case waitW.isFalse hb =>
    -- nobody held the latch; the thread is now its one writer
    simp only [not_or, Bool.not_eq_true, ne_eq, not_not] at hb
    exact ⟨by simp; omega, by simp; omega, by omega, fun hv => by have := h4 hv; omega, by omega⟩
  case waitR.isFalse hb =>
    -- no writer held the latch; the thread is one more reader
    have : w = 0 := by by_contra hw0; exact hb (h2.2 (by omega))
    exact ⟨by simp; omega, h2.trans (by omega), by omega, fun hv => by have := h4 hv; omega,
      by omega⟩
  case unlockW | unlockR =>
    -- the holder leaves: for write it was alone, for read no writer was there
    exact ⟨by simp; omega, by simp; omega, by omega, fun hv => by have := h4 hv; omega, by omega⟩
  case create =>
    -- `init` has set `valid`
    exact ⟨h1.trans (by omega), h2.trans (by omega), by omega, by simp, by omega⟩

/-- Calling `ilock` moves an idle thread to a wait loop, which no count sees. -/
theorem inv_ilock {s : St} {i : Nat} (write : Bool) (h : s.threads[i]? = some .idle)
    (hs : Inv s) : Inv ⟨s.fields, s.threads.set i (if write then .waitW else .waitR)⟩ := by
  have e : ∀ f : Pc → Bool, f .idle = false → f .waitW = false → f .waitR = false →
      (s.threads.set i (if write then .waitW else .waitR)).countP f = s.threads.countP f :=
    fun f h0 hW hR => countP_set_eq h (by cases write <;> simp [h0, hW, hR])
  unfold Inv
  rwa [e Pc.isWriter rfl rfl rfl, e Pc.isReader rfl rfl rfl, e Pc.isCreate rfl rfl rfl,
    e Pc.isPanicked rfl rfl rfl]

theorem inv_step {s s' : St} (hs : Inv s) (h : Step s s') : Inv s' := by
  cases h with
  | ilock write h => exact inv_ilock write h hs
  | run h =>
    exact good_next rfl hs (countP_create_le _) (countP_create_le _) (countP_set_add h _ _)
      (countP_set_add h _ _) (countP_set_add h _ _) (countP_set_add h _ _)

theorem inv_init {s : St} (h : Init s) : Inv s := by
  obtain ⟨f, l⟩ := s
  rcases h with ⟨hall, rfl⟩ | ⟨hc, hall, rfl⟩
  · -- every thread is idle: no count sees one
    have h0 : ∀ g : Pc → Bool, g .idle = false → l.countP g = 0 := fun g hg =>
      List.countP_eq_zero.2 fun a ha => by simp_all [of_decide_eq_true (List.all_eq_true.1 hall a ha)]
    rw [Inv, h0 Pc.isWriter rfl, h0 Pc.isReader rfl, h0 Pc.isPanicked rfl]
    exact ⟨by simp, by simp, .inl rfl, by simp, rfl⟩
  · -- the creator is the one writer
    have hw : l.countP Pc.isWriter = l.countP Pc.isCreate := List.countP_congr fun a ha => by
      rcases of_decide_eq_true (List.all_eq_true.1 hall a ha) with rfl | rfl <;> rfl
    have hr : l.countP Pc.isReader = 0 := List.countP_eq_zero.2 fun a ha => by
      rcases of_decide_eq_true (List.all_eq_true.1 hall a ha) with rfl | rfl <;> decide
    have hx : l.countP Pc.isPanicked = 0 := List.countP_eq_zero.2 fun a ha => by
      rcases of_decide_eq_true (List.all_eq_true.1 hall a ha) with rfl | rfl <;> decide
    rw [Inv, hw, hr, hx, hc]
    exact ⟨by simp, by simp, .inr ⟨rfl, rfl⟩, fun _ => rfl, rfl⟩

theorem reachable_inv {s : St} (h : Reachable s) : Inv s := by
  induction h with
  | init h => exact inv_init h
  | step _ hs ih => exact inv_step ih hs

/-! ## Mutual exclusion -/

/-- In every reachable state, for any number of threads: nobody holds the latch, or one
writer holds it alone, or only readers hold it; `readbusy` counts the holders; `busy` is
set exactly while a writer holds it. -/
theorem latch_exclusion {s : St} (h : Reachable s) :
    let w := s.threads.countP Pc.isWriter
    let r := s.threads.countP Pc.isReader
    ((w = 0 ∧ r = 0) ∨ (w = 1 ∧ r = 0) ∨ (w = 0 ∧ 0 < r)) ∧
      s.fields.readbusy = w + r ∧ (s.fields.busy = true ↔ 0 < w) := by
  obtain ⟨h1, h2, h3, -, -⟩ := reachable_inv h
  exact ⟨by omega, h1, h2⟩

/-- From the inode `iget` has just created: its creator runs `init` and `iunlock`, then the
other thread takes the latch for read. -/
theorem reachable_reader : Reachable ⟨⟨false, 1, true⟩, [.idle, .holdR]⟩ :=
  have r₀ : Reachable ⟨⟨true, 1, false⟩, [.create, .idle]⟩ := .init (.inr ⟨rfl, rfl, rfl⟩)
  -- `init`, then `iunlock`'s test and its critical section
  have r₃ := ((r₀.step (.run (i := 0) (p := .create) rfl)).step (.run (i := 0) (p := .holdW) rfl)).step
    (.run (i := 0) (p := .unlockW) rfl)
  -- `ilock(ip, READLOCK)`: the test of `busy`, then of `valid`
  have r₄ := r₃.step (.ilock (i := 1) false rfl)
  (r₄.step (.run (i := 1) (p := .waitR) rfl)).step (.run (i := 1) (p := .checkR) rfl)

/-- After the creator's `iunlock` and the other thread's `ilock` for read: no writer, one
reader, `readbusy` 1 and `busy` clear. -/
theorem latch_exclusion_reader :
    let s : St := ⟨⟨false, 1, true⟩, [.idle, .holdR]⟩
    Reachable s ∧ s.threads.countP Pc.isWriter = 0 ∧ s.threads.countP Pc.isReader = 1 ∧
      (((s.threads.countP Pc.isWriter = 0 ∧ s.threads.countP Pc.isReader = 0) ∨
        (s.threads.countP Pc.isWriter = 1 ∧ s.threads.countP Pc.isReader = 0) ∨
        (s.threads.countP Pc.isWriter = 0 ∧ 0 < s.threads.countP Pc.isReader)) ∧
      s.fields.readbusy = s.threads.countP Pc.isWriter + s.threads.countP Pc.isReader ∧
      (s.fields.busy = true ↔ 0 < s.threads.countP Pc.isWriter)) :=
  ⟨reachable_reader, rfl, rfl, latch_exclusion reachable_reader⟩

/-- No reachable state has a thread that called `panic` in `ilock` or `iunlock`. -/
theorem latch_no_panic {s : St} (h : Reachable s) : Pc.panicked ∉ s.threads := fun hp =>
  absurd (Good.no_panic (reachable_inv h))
    (List.countP_pos_iff.2 ⟨Pc.panicked, hp, rfl⟩ : 0 < s.threads.countP Pc.isPanicked).ne'

/-- The same state: no thread has panicked. -/
theorem latch_no_panic_reader :
    Reachable ⟨⟨false, 1, true⟩, [.idle, .holdR]⟩ ∧
      Pc.panicked ∉ (⟨⟨false, 1, true⟩, [.idle, .holdR]⟩ : St).threads :=
  ⟨reachable_reader, latch_no_panic reachable_reader⟩

end Sv6Fs.Latch
