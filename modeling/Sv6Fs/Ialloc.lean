import Sv6Fs.Sys

/-! # Inode-number allocation

`ialloc(dev, type)` scans the inode numbers from `last_inode[myid()] + 1` (modulo
`ninodes`), skipping inum 0; at `ninodes - 1` it wraps to the start once, and a second
time it runs off the end. `try_ialloc` takes an inode whose type is 0 by setting its type,
bumps its generation, and panics if the inode is not zeroed (a link count, a size or a
first address).

`last_inode[myid()]` is passed in, and its new value returned beside the result. The scan
runs with no concurrent change, so `cmpxch` on a type of 0 succeeds; `ilock` is left out
(the latch is modelled on its own).

* `iallocLoop_true`, `iallocLoop_false`: the loop tries the numbers from the start to
  `ninodes - 1`, then (the first time) from 1 to `ninodes - 1`.
* `scanList_find`: a scan stops at the first free inode of its list and tries nothing else.
* `iallocLoop_start`: the numbers tried a second time add no free inode.
* `ialloc_spec`: `ialloc` takes the first free inum in the cyclic order `last + 1, …,
  ninodes - 1, 1, …, last`, or returns none when no inum of `[1, ninodes)` is free; the
  inode it takes panics when it is not zeroed (`ialloc_not_zeroed`).
-/

namespace Sv6Fs

/-! ## The code -/

/-- `try_ialloc(inum, dev, type)`: whether inode `inum` was taken. -/
def tryIalloc (inum : Nat) (type : IType) : SysM Bool := do
  let ip := (← get).inodes inum
  if ip.type ≠ .free then return false
  modify fun s => s.setInode inum { ip with type := type, gen := (ip.gen + 1) % 4294967296 }
  if ip.nlink ≠ 0 ∨ ip.size ≠ 0 ∨ ip.addrs 0 ≠ 0 then
    throw (.panic "try_ialloc: inode not zeroed\n")
  return true

/-- The `for` loop of `ialloc` at `inum`: `inum == 0` is skipped, and a failed
`ninodes - 1` goes on at 1 (`inum = 0; continue;`) the first time. -/
def iallocLoop (ninodes : Nat) (type : IType) (inum : Nat) (allScanned : Bool) :
    SysM (Option Nat) :=
  if inum < ninodes then
    if inum = 0 then iallocLoop ninodes type (inum + 1) allScanned
    else do
      if ← tryIalloc inum type then return some inum
      if inum = ninodes - 1 ∧ allScanned = false then iallocLoop ninodes type 1 true
      else iallocLoop ninodes type (inum + 1) allScanned
  else pure none
termination_by (if allScanned then 0 else ninodes + 1) + (ninodes - inum)
decreasing_by
  all_goals simp_wf
  all_goals cases allScanned <;> simp_all <;> omega

/-- `ialloc(dev, type)` from `last_inode[myid()] = last`: the inum taken, and the new
`last_inode[myid()]`. -/
def ialloc (ninodes last : Nat) (type : IType) : SysM (Option Nat × Nat) := do
  let r ← iallocLoop ninodes type ((last + 1) % ninodes) false
  return (r, r.getD last)

/-! ## The reference -/

/-- The cyclic order from `last_inode`: `last + 1, …, ninodes - 1`, then `1, …, last`. -/
def cyclicOrder (ninodes last : Nat) : List Nat :=
  List.range' (last + 1) (ninodes - (last + 1)) ++ List.range' 1 last

/-- A free inode: type 0. -/
def Sys.isFree (s : Sys) (j : Nat) : Bool := (s.inodes j).type = .free

/-- Zeroed: what `try_ialloc` requires of the inode it takes. -/
def Inode.Zeroed (ip : Inode) : Prop := ip.nlink = 0 ∧ ip.size = 0 ∧ ip.addrs 0 = 0

instance (ip : Inode) : Decidable ip.Zeroed := inferInstanceAs (Decidable (_ ∧ _ ∧ _))

/-- The inode after `try_ialloc` takes it. -/
def Inode.taken (ip : Inode) (type : IType) : Inode :=
  { ip with type := type, gen := (ip.gen + 1) % 4294967296 }

/-- The scan of a list of inode numbers, each tried in turn. -/
def scanList (type : IType) : List Nat → SysM (Option Nat)
  | [] => pure none
  | j :: js => do if ← tryIalloc j type then return some j else scanList type js

/-! ## One step -/

theorem tryIalloc_apply (inum : Nat) (type : IType) (s : Sys) :
    tryIalloc inum type s =
      if (s.inodes inum).type ≠ .free then .ok false s
      else if (s.inodes inum).Zeroed then .ok true (s.setInode inum ((s.inodes inum).taken type))
      else .error (.panic "try_ialloc: inode not zeroed\n") (s.setInode inum ((s.inodes inum).taken type)) := by
  simp only [tryIalloc, Inode.Zeroed, Inode.taken, SysM.bind_apply, SysM.get_apply]
  split_ifs with h1 h2 h3 <;> simp_all [not_or]

theorem iallocLoop_apply {ninodes inum : Nat} (type : IType) (allScanned : Bool) (hlt : inum < ninodes)
    (h0 : inum ≠ 0) (s : Sys) :
    iallocLoop ninodes type inum allScanned s =
      match tryIalloc inum type s with
      | .ok true s' => .ok (some inum) s'
      | .ok false s' => if inum = ninodes - 1 ∧ allScanned = false then iallocLoop ninodes type 1 true s'
          else iallocLoop ninodes type (inum + 1) allScanned s'
      | .error e s' => .error e s' := by
  rw [iallocLoop, if_pos hlt, if_neg h0, SysM.bind_apply]
  rcases tryIalloc inum type s with ⟨_ | _, s'⟩ | ⟨e, s'⟩
  · simp only [Bool.false_eq_true, if_false, SysM.pure_apply, SysM.bind_apply]
    split_ifs <;> rfl
  · rfl
  · rfl

theorem scanList_cons (type : IType) (j : Nat) (js : List Nat) (s : Sys) :
    scanList type (j :: js) s =
      match tryIalloc j type s with
      | .ok true s' => .ok (some j) s'
      | .ok false s' => scanList type js s'
      | .error e s' => .error e s' := by
  rw [scanList, SysM.bind_apply]
  rcases tryIalloc j type s with ⟨_ | _, s'⟩ | ⟨e, s'⟩ <;> rfl

/-! ## The scan -/

/-- A scan stops at the first free inode of its list, takes it, and panics if it is not
zeroed; a list with no free inode leaves the state as it was. -/
theorem scanList_find (type : IType) : ∀ (l : List Nat) (s : Sys),
    scanList type l s =
      match l.find? s.isFree with
      | none => .ok none s
      | some j => if (s.inodes j).Zeroed then .ok (some j) (s.setInode j ((s.inodes j).taken type))
          else .error (.panic "try_ialloc: inode not zeroed\n") (s.setInode j ((s.inodes j).taken type))
  | [], _ => rfl
  | j :: js, s => by
    rw [scanList_cons, tryIalloc_apply, List.find?_cons]
    by_cases hf : (s.inodes j).type = .free
    · simp only [show s.isFree j = true by simp [Sys.isFree, hf], hf, ne_eq, not_true_eq_false,
        if_false]
      split_ifs <;> rfl
    · simp only [show s.isFree j = false by simp [Sys.isFree, hf], hf, ne_eq, not_false_eq_true,
        if_true]
      exact scanList_find type js s

/-- After its wrap the loop tries the numbers from `inum` to `ninodes - 1`. -/
theorem iallocLoop_true {ninodes : Nat} (type : IType) (inum : Nat) (h1 : 1 ≤ inum) (s : Sys) :
    iallocLoop ninodes type inum true s = scanList type (List.range' inum (ninodes - inum)) s := by
  by_cases hlt : inum < ninodes
  · rw [iallocLoop_apply type true hlt (by omega), show ninodes - inum = ninodes - (inum + 1) + 1 by omega,
      List.range'_succ, scanList_cons]
    rcases tryIalloc inum type s with ⟨_ | _, s'⟩ | ⟨e, s'⟩
    · simp only [Bool.true_eq_false, and_false, if_false]
      exact iallocLoop_true type (inum + 1) (by omega) s'
    · rfl
    · rfl
  · rw [iallocLoop, if_neg hlt, show ninodes - inum = 0 by omega]
    rfl
termination_by ninodes - inum

/-- Before its wrap the loop tries the numbers from `inum` to `ninodes - 1`, then from 1
to `ninodes - 1`. -/
theorem iallocLoop_false {ninodes : Nat} (type : IType) (inum : Nat) (h1 : 1 ≤ inum)
    (hlt : inum < ninodes) (s : Sys) :
    iallocLoop ninodes type inum false s =
      scanList type (List.range' inum (ninodes - inum) ++ List.range' 1 (ninodes - 1)) s := by
  rw [iallocLoop_apply type false hlt (by omega), show ninodes - inum = ninodes - (inum + 1) + 1 by omega,
    List.range'_succ, List.cons_append, scanList_cons]
  rcases tryIalloc inum type s with ⟨_ | _, s'⟩ | ⟨e, s'⟩
  · dsimp only
    by_cases hw : inum = ninodes - 1
    · rw [if_pos ⟨hw, rfl⟩, iallocLoop_true type 1 le_rfl, show ninodes - (inum + 1) = 0 by omega]
      rfl
    · rw [if_neg fun h => hw h.1]
      exact iallocLoop_false type (inum + 1) (by omega) (by omega) s'
  · rfl
  · rfl
termination_by ninodes - inum

/-! ## `ialloc` against the first free inode of the cyclic order -/

theorem mem_cyclicOrder {ninodes last j : Nat} (hlast : last < ninodes) :
    j ∈ cyclicOrder ninodes last ↔ 1 ≤ j ∧ j < ninodes := by
  simp only [cyclicOrder, List.mem_append, List.mem_range'_1]
  omega

/-- A prefix tried a second time finds nothing the first try did not. -/
theorem find?_append_self {p : Nat → Bool} (a b : List Nat) :
    (a ++ b ++ a).find? p = (a ++ b).find? p := by
  simp only [List.find?_append]
  cases a.find? p <;> cases b.find? p <;> rfl

/-- From `(last + 1) % ninodes` the loop tries a list whose first free inode is the cyclic
order's: the numbers it tries a second time were not free the first time. -/
theorem iallocLoop_start {ninodes last : Nat} (hn : 2 ≤ ninodes) (hlast : last < ninodes)
    (type : IType) (s : Sys) : ∃ l : List Nat, l.find? s.isFree = (cyclicOrder ninodes last).find? s.isFree ∧
      iallocLoop ninodes type ((last + 1) % ninodes) false s = scanList type l s := by
  by_cases hw : last + 1 < ninodes
  · rw [Nat.mod_eq_of_lt hw]
    refine ⟨_, ?_, iallocLoop_false type (last + 1) (by omega) hw s⟩
    have hsplit : List.range' 1 (ninodes - 1) =
        List.range' 1 last ++ List.range' (1 + last) (ninodes - (last + 1)) := by
      rw [List.range'_append_1, show ninodes - (last + 1) + last = ninodes - 1 by omega]
    rw [hsplit, show 1 + last = last + 1 by omega, ← List.append_assoc, find?_append_self]
    rfl
  · have h0 : (last + 1) % ninodes = 0 := by rw [show last + 1 = ninodes by omega, Nat.mod_self]
    refine ⟨_, ?_, by rw [h0, iallocLoop, if_pos (by omega), if_pos rfl]; exact
      iallocLoop_false type 1 le_rfl (by omega) s⟩
    have := find?_append_self (p := s.isFree) (List.range' 1 (ninodes - 1)) []
    simp only [List.append_nil] at this
    rw [this, cyclicOrder, show ninodes - (last + 1) = 0 by omega, show last = ninodes - 1 by omega]
    rfl

/-- With at least two inodes and `last_inode[myid()]` below `ninodes`: `ialloc` tries the
first free inum of the cyclic order `last + 1, …, ninodes - 1, 1, …, last`, none of which
is 0, setting its type and its generation; it returns it and makes it `last_inode`, or
panics when that inode is not zeroed. It returns none, changing nothing, exactly when no
inum of `[1, ninodes)` is free. -/
theorem ialloc_spec {ninodes last : Nat} (hn : 2 ≤ ninodes) (hlast : last < ninodes)
    (type : IType) (s : Sys) :
    0 ∉ cyclicOrder ninodes last ∧
      ((cyclicOrder ninodes last).find? s.isFree = none ↔
        ∀ j, 1 ≤ j → j < ninodes → (s.inodes j).type ≠ .free) ∧
      ialloc ninodes last type s =
        match (cyclicOrder ninodes last).find? s.isFree with
        | none => .ok (none, last) s
        | some j =>
          if (s.inodes j).Zeroed then .ok (some j, j) (s.setInode j ((s.inodes j).taken type))
          else .error (.panic "try_ialloc: inode not zeroed\n") (s.setInode j ((s.inodes j).taken type)) := by
  refine ⟨fun h => absurd ((mem_cyclicOrder hlast).1 h).1 (by decide), ?_, ?_⟩
  · simp only [List.find?_eq_none, mem_cyclicOrder hlast, Sys.isFree, decide_eq_true_eq]
    exact ⟨fun h j h1 h2 => h j ⟨h1, h2⟩, fun h j hj => h j hj.1 hj.2⟩
  · obtain ⟨l, hfind, hloop⟩ := iallocLoop_start hn hlast type s
    rw [ialloc, SysM.bind_apply, hloop, scanList_find, hfind]
    cases (cyclicOrder ninodes last).find? s.isFree with
    | none => rfl
    | some j =>
      dsimp only
      split_ifs <;> rfl

/-- Four inodes, CPU's last inum 2, inode 3 in use: the scan wraps past 0 to the free
inode 1. -/
theorem ialloc_spec_wraps :
    let s : Sys := ⟨fun j => ⟨j, if j = 1 then .free else .file, 0, 0, 0, 0, 0, fun _ => 0,
      none, 0, 0⟩, ⟨⟨fun _ => zeroBlock, fun _ => false, fun _ => zeroBlock⟩, fun _ => true,
      Transaction.empty⟩⟩
    (2 ≤ 4 ∧ 2 < 4) ∧ ialloc 4 2 .dir s = .ok (some 1, 1) (s.setInode 1 ((s.inodes 1).taken .dir)) := by
  intro s
  exact ⟨by decide, (ialloc_spec (by decide) (by decide) .dir s).2.2.trans rfl⟩

/-- A free inode whose size was left nonzero: the scan takes it, then panics instead of
returning it. -/
theorem ialloc_not_zeroed :
    let s : Sys := ⟨fun j => ⟨j, if j = 1 then .free else .file, 0, 0, 0, 5, 0, fun _ => 0,
      none, 0, 0⟩, ⟨⟨fun _ => zeroBlock, fun _ => false, fun _ => zeroBlock⟩, fun _ => true,
      Transaction.empty⟩⟩
    ialloc 4 0 .dir s =
      .error (.panic "try_ialloc: inode not zeroed\n") (s.setInode 1 ((s.inodes 1).taken .dir)) := by
  intro s
  rw [ialloc, SysM.bind_apply, show (0 + 1) % 4 = 1 from rfl,
    @iallocLoop_apply 4 1 .dir false (by decide) (by decide), tryIalloc_apply, if_neg (by decide),
    if_neg (by decide)]

end Sv6Fs
