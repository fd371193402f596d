import Mathlib.Logic.Relation
import Sv6Fs.Layout

/-! # The inode cache

`iget(dev, inum)` looks the key up in the hash table `ins`. On a hit it takes a new
reference to the cached object and waits for its `valid` flag. On a miss it allocates a
private object, marks it locked for write (`busy`, `readbusy = 1`) and tries to insert it:
the winner runs `init`, which reads the on-disk inode, takes the references of the link
count and of the file system, and sets `valid`, then unlocks it; the loser unlocks its
object and jumps back to `retry`, which destroys the `sref` holding it. When an object's
count reaches zero, `inode::onzero` checks that it is unlocked and valid, marks it busy,
and removes the key from the table.

The references of an object are those of the threads' `sref`s, the one a positive link
count holds (`inode::link` takes it when `nlink_` becomes one, `inode::unlink` drops it
when `nlink_` reaches zero), and the one `init` takes for `mfs_interface::free_inode`.
That function is not among the repository's files, so the file system may drop this
reference at any time.

The model follows one key. Objects are numbered in allocation order; each thread is at a
program point of `iget`, or holds the reference `iget` returned, on which it may call
`link` and `unlink` before dropping it. `onzero` runs as its own step on any object whose
count is zero, as the reference counter may run it late. A panic stops the kernel, so no
step follows it.

* `insert_loser_panics`: from any state in which a thread is about to lose the insert
  with its freshly allocated object, its next three steps and `onzero` of that object end
  in `onzero`'s "valid flag is false" panic.
* `iget_race_panics`: two threads calling `iget` for an inode that is not cached reach
  that panic.
-/

namespace Sv6Fs.InodeCache

/-- The fields of an in-memory `inode` object that the cache protocol reads: the `valid`
flag, the write latch (`busy`, `readbusy`), the reference count `ref`, the link count
`nlink_`, whether the file system still holds the reference `init` took for it (`fsRef`),
and whether `onzero` has run (`zeroed`). -/
structure Obj where
  valid : Bool
  busy : Bool
  readbusy : Int
  ref : Nat
  nlink : Int
  fsRef : Bool
  zeroed : Bool
  deriving DecidableEq, Repr

/-- `inode::alloc` followed by `ip->busy = true; ip->readbusy = 1`: the caller holds its one
reference and the write latch. -/
def Obj.fresh : Obj := ⟨false, true, 1, 1, 0, false, false⟩

/-- `inode::link()`: a link count that becomes one takes a reference. -/
def Obj.link (x : Obj) : Obj :=
  let n := toShort (x.nlink + 1)
  { x with nlink := n, ref := if n = 1 then x.ref + 1 else x.ref }

/-- `inode::unlink()`: a link count that reaches zero drops its reference. -/
def Obj.unlink (x : Obj) : Obj :=
  let n := toShort (x.nlink - 1)
  { x with nlink := n, ref := if n = 0 then x.ref - 1 else x.ref }

/-- Where a thread is in `iget`: not in it (`idle`); at `retry:`, about to look the key up
(`lookup`); holding a new reference to cached object `o` and waiting for its `valid` flag
(`waitValid o`); missed the cache, about to allocate (`alloc`); about to insert its private
object `o` (`insert o`); lost the insert, at `iunlock(ip)` (`loserUnlock o`); at
`goto retry`, which destroys `ip`, the reference to `o` (`retry o`); won the insert, at
`ip->init()` (`init o`); at the winner's `iunlock(ip)` (`winnerUnlock o`); or returned `o`
(`holding o`). -/
inductive Pc where
  | idle
  | lookup
  | waitValid (o : Nat)
  | alloc
  | insert (o : Nat)
  | loserUnlock (o : Nat)
  | retry (o : Nat)
  | init (o : Nat)
  | winnerUnlock (o : Nat)
  | holding (o : Nat)
  deriving DecidableEq, Repr

/-- The objects for the key, the table's entry, the threads, the on-disk inode's link
count, which `init` reads, and a panic message once the kernel has panicked. -/
structure St where
  objs : List Obj
  cache : Option Nat
  threads : List Pc
  nlink : Int
  panic : Option String
  deriving DecidableEq, Repr

namespace St

/-- Thread `i` moves to `p`. -/
def setPc (s : St) (i : Nat) (p : Pc) : St := { s with threads := s.threads.set i p }

/-- Object `o` changed by `f`. -/
def modObj (s : St) (o : Nat) (f : Obj → Obj) : St := { s with objs := s.objs.modify f o }

end St

/-- `iunlock` of object `o`: the unlocked test, then `--readbusy; busy = false`. -/
def iunlock (s : St) (o : Nat) (x : Obj) : St :=
  if x.readbusy = 0 ∧ x.busy = false then { s with panic := some "iunlock(): inode not locked\n" }
  else s.modObj o fun x => { x with readbusy := x.readbusy - 1, busy := false }

/-- `inode::onzero` on object `o`: its checks under the lock, then the key's removal. -/
def onzero (s : St) (o : Nat) (x : Obj) : St :=
  if x.busy ∨ x.readbusy ≠ 0 then { s with panic := some "inode::onzero() : inode is busy (locked)\n" }
  else if x.valid = false then
    { s with panic := some "inode::onzero() : inode's valid flag is false\n" }
  else { s.modObj o fun x => { x with busy := true, readbusy := x.readbusy + 1, zeroed := true }
    with cache := none }

/-- The next step of thread `i`, at `p`; `none` while it waits. -/
def advance (s : St) (i : Nat) : Pc → Option St
  | .lookup => some <| match s.cache with
    | some o => (s.modObj o fun x => { x with ref := x.ref + 1 }).setPc i (.waitValid o)
    | none => s.setPc i .alloc
  | .waitValid o => match s.objs[o]? with
    | some x => if x.valid then some (s.setPc i (.holding o)) else none
    | none => none
  | .alloc => some <| { s with objs := s.objs ++ [Obj.fresh] }.setPc i (.insert s.objs.length)
  | .insert o => some <| match s.cache with
    | none => { s with cache := some o }.setPc i (.init o)
    | some _ => s.setPc i (.loserUnlock o)
  | .loserUnlock o => (s.objs[o]?).map fun x => (iunlock s o x).setPc i (.retry o)
  | .retry o => some <| (s.modObj o fun x => { x with ref := x.ref - 1 }).setPc i .lookup
  | .init o => some <| (s.modObj o fun x =>
      { x with valid := true, nlink := s.nlink, fsRef := true,
               ref := x.ref + (if s.nlink > 0 then 2 else 1) }).setPc i (.winnerUnlock o)
  | .winnerUnlock o => (s.objs[o]?).map fun x => (iunlock s o x).setPc i (.holding o)
  | .idle | .holding _ => none

/-- What can happen next: thread `i` calls `iget` (`call i`) or takes its next step in it
(`run i`); it calls `link` or `unlink` on the object `iget` returned, as `dirlink` and
`dirunlink` do (`link i`, `unlink i`), or drops that reference (`release i`); the file
system drops the reference `init` took for object `o` (`freeInode o`); or `onzero` runs on
object `o`, whose count is zero (`reclaim o`). -/
inductive Act where
  | call (i : Nat)
  | run (i : Nat)
  | link (i : Nat)
  | unlink (i : Nat)
  | release (i : Nat)
  | freeInode (o : Nat)
  | reclaim (o : Nat)
  deriving DecidableEq, Repr

/-- One step, or `none` if the action cannot happen now. -/
def step (s : St) (a : Act) : Option St :=
  if s.panic.isSome then none else
  match a with
  | .call i => if s.threads[i]? = some .idle then some (s.setPc i .lookup) else none
  | .run i => (s.threads[i]?).bind (advance s i)
  | .link i => match s.threads[i]? with
    | some (.holding o) => some (s.modObj o Obj.link)
    | _ => none
  | .unlink i => match s.threads[i]? with
    | some (.holding o) => some (s.modObj o Obj.unlink)
    | _ => none
  | .release i => match s.threads[i]? with
    | some (.holding o) => some <| (s.modObj o fun x => { x with ref := x.ref - 1 }).setPc i .idle
    | _ => none
  | .freeInode o => match s.objs[o]? with
    | some x => if x.fsRef then some (s.modObj o fun x => { x with ref := x.ref - 1, fsRef := false })
      else none
    | none => none
  | .reclaim o => match s.objs[o]? with
    | some x => if x.ref = 0 ∧ x.zeroed = false then some (onzero s o x) else none
    | none => none

/-- Steps from `s₀`. -/
def Reachable (s₀ : St) : St → Prop := Relation.ReflTransGen (fun s s' => ∃ a, step s a = some s') s₀

/-- Run a list of actions in order. -/
def run : St → List Act → Option St
  | s, [] => some s
  | s, a :: rest => (step s a).bind (run · rest)

/-- A thread gets an inode of one link that is not cached, unlinks it and drops it; once
the file system has dropped its reference too, `onzero` reclaims the object and empties the
table's entry, without a panic. -/
example : (run ⟨[], none, [.idle], 1, none⟩ [.call 0, .run 0, .run 0, .run 0, .run 0, .run 0,
    .unlink 0, .release 0, .freeInode 0, .reclaim 0]).map (fun s => (s.panic, s.cache)) =
    some (none, none) := by decide

theorem run_reachable {s₀ : St} : ∀ {s s' : St} {l : List Act}, Reachable s₀ s →
    run s l = some s' → Reachable s₀ s'
  | s, s', [], hs, h => by simp only [run, Option.some.injEq] at h; exact h ▸ hs
  | s, s', a :: rest, hs, h => by
    simp only [run] at h
    cases hn : step s a with
    | none => simp [hn] at h
    | some s1 =>
      simp only [hn, Option.bind_some] at h
      exact run_reachable (hs.tail ⟨a, hn⟩) h

/-! ## The loser of the insert race -/

section Loser

variable {s : St} {i o : Nat}

@[simp] theorem setPc_objs (p : Pc) : (s.setPc i p).objs = s.objs := rfl
@[simp] theorem setPc_panic (p : Pc) : (s.setPc i p).panic = s.panic := rfl
@[simp] theorem modObj_objs (f : Obj → Obj) : (s.modObj o f).objs = s.objs.modify f o := rfl
@[simp] theorem modObj_panic (f : Obj → Obj) : (s.modObj o f).panic = s.panic := rfl
@[simp] theorem modObj_threads (f : Obj → Obj) : (s.modObj o f).threads = s.threads := rfl
@[simp] theorem setPc_threads (p : Pc) : (s.setPc i p).threads = s.threads.set i p := rfl

/-- A thread about to lose the insert, with the object it allocated untouched since, runs
`iunlock` and `goto retry`; the object's count is then zero and its `onzero` panics, as
`init` never set `valid`. -/
theorem insert_loser_panics (hp : s.panic = none) (hi : s.threads[i]? = some (.insert o))
    (ho : s.objs[o]? = some Obj.fresh) (hc : s.cache.isSome) :
    ∃ s', run s [.run i, .run i, .run i, .reclaim o] = some s' ∧
      s'.panic = some "inode::onzero() : inode's valid flag is false\n" := by
  obtain ⟨o', hc⟩ := Option.isSome_iff_exists.1 hc
  have hlt : i < s.threads.length := (List.getElem?_eq_some_iff.1 hi).1
  simp [run, step, advance, hp, hi, hc, ho, iunlock, onzero, Obj.fresh, hlt,
    List.getElem?_modify, St.setPc]

end Loser

/-- Two threads calling `iget` for an inode that is not cached: both miss, the first
inserts its object, and the second, losing the insert, panics in `onzero`. -/
theorem iget_race_panics :
    ∃ s, Reachable ⟨[], none, [.idle, .idle], 1, none⟩ s ∧
      s.panic = some "inode::onzero() : inode's valid flag is false\n" := by
  let s₁ : St := ⟨[Obj.fresh, Obj.fresh], some 0, [.init 0, .insert 1], 1, none⟩
  have h₁ : run ⟨[], none, [.idle, .idle], 1, none⟩
      [.call 0, .call 1, .run 0, .run 1, .run 0, .run 1, .run 0] = some s₁ := by decide
  obtain ⟨s, hs, hp⟩ := @insert_loser_panics s₁ 1 1 rfl rfl rfl rfl
  exact ⟨s, run_reachable (run_reachable .refl h₁) hs, hp⟩

end Sv6Fs.InodeCache
