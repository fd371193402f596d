import Mathlib.Data.List.Basic
import Sv6Fs.Dir

/-! # Path resolution

`skipelem` lexes one component off a NUL-terminated path: it skips `/`s, reads up to the
next `/` or NUL, refuses a component longer than `DIRSIZ`, copies it into the name buffer
and skips the `/`s after it. `namex` starts at `the_root` for a path that begins with `/`
and at `cwd` otherwise; for each component it checks the current inode's type (type 0 is a
panic, any other type but `T_DIR` a failure), stops one level early for `nameiparent`, and
looks the component up with `dirlookup`.

A path is a byte list whose first 0 byte, or its end, is the NUL. The name buffer holds
the bytes `skipelem` last copied; it is a C string, since a component holds no NUL.

* `components`: the non-empty runs of bytes other than `/`, and `skipelem_elem`,
  `skipelem_done`, `skipelem_tooLong`: each call of `skipelem` takes off the first of them.
* `skipelemRun_eq_lexSpec`, `skipelem_lexes`: `skipelem` called again and again, as `namex`
  calls it, is the lexer `lexSpec` over the components; each call that returns 1 moves the
  path past a component and its `/`s and leaves the component in the name buffer
  (`putName`).
* `namexLoop_resolve`: without `nameiparent`, the loop is `resolve`, the fold of
  `dirlookup` over the components, while no lookup meets a type-0 inode.
* `namexLoop_parent`: with `nameiparent`, it is `resolve` over all but the last component
  and the type check of the directory reached.
* `namexLoop_eq_parent_bind`: for every path with a component and every state, `namei` is
  `nameiparent` followed by `dirlookup` of the name it returns.
* `namei_resolve`: the four together for `namei` and `nameiparent`; `namei_free_cwd` is
  the panic on a `cwd` of type 0, which the fold reads as a failure.
-/

namespace Sv6Fs

/-! ## The lexer -/

/-- `*path`: the byte under the cursor, 0 at the end of the string. -/
def peek (path : List UInt8) : UInt8 := path.headD 0

/-- `while (*path == '/') path++;` -/
def skipSlashes : List UInt8 → List UInt8
  | [] => []
  | c :: path => if c = 47 then skipSlashes path else c :: path

/-- `*path != '/' && *path != 0`. -/
def inElem (c : UInt8) : Bool := c != 47 && c != 0

/-- What `skipelem` returns: 0 at the end of the path, -1 for a component longer than
`DIRSIZ`, or 1 with the component copied into the name buffer and the path after the
component and the `/`s that follow it. -/
inductive Skip where
  | done
  | tooLong
  | elem (name rest : List UInt8)
  deriving DecidableEq, Repr

/-- `skipelem(&path, name)`. -/
def skipelem (G : Geometry) (path : List UInt8) : Skip :=
  let path := skipSlashes path
  if peek path = 0 then .done
  else
    let name := path.takeWhile inElem
    if G.dirsiz < name.length then .tooLong
    else .elem name (skipSlashes (path.dropWhile inElem))

/-- The components of a path: the maximal non-empty runs of bytes other than `/` in its C
string. -/
def components (path : List UInt8) : List (List UInt8) :=
  ((cstr path).splitOn 47).filter fun c => !c.isEmpty

section Lexer

variable {G : Geometry}

theorem peek_skipSlashes (path : List UInt8) : peek (skipSlashes path) ≠ 47 := by
  induction path with
  | nil => decide
  | cons c path ih =>
    unfold skipSlashes
    split_ifs with h
    · exact ih
    · exact h

theorem length_skipSlashes_le (path : List UInt8) : (skipSlashes path).length ≤ path.length := by
  induction path with
  | nil => exact le_rfl
  | cons c path ih =>
    unfold skipSlashes
    split_ifs
    · exact ih.trans (Nat.le_succ _)
    · exact le_rfl

/-- The loop of `namex` terminates: `skipelem` takes at least one byte. -/
theorem skipelem_rest_lt {path name rest : List UInt8} (h : skipelem G path = .elem name rest) :
    rest.length < path.length := by
  unfold skipelem at h
  dsimp only at h
  have hle := length_skipSlashes_le path
  have h47 := peek_skipSlashes path
  generalize skipSlashes path = q at h hle h47
  split_ifs at h with h0
  cases h
  cases q with
  | nil => exact absurd rfl h0
  | cons c q =>
    have hc : inElem c = true := by simpa [inElem, peek] using And.intro h47 h0
    calc (skipSlashes ((c :: q).dropWhile inElem)).length
        ≤ ((c :: q).dropWhile inElem).length := length_skipSlashes_le _
      _ ≤ q.length := by rw [List.dropWhile_cons_of_pos hc]; exact (List.dropWhile_suffix _).length_le
      _ < path.length := hle

theorem components_slash (path : List UInt8) : components (47 :: path) = components path := by
  simp [components, cstr, List.splitOn]

theorem components_skipSlashes (path : List UInt8) :
    components (skipSlashes path) = components path := by
  induction path with
  | nil => rfl
  | cons c path ih =>
    unfold skipSlashes
    split_ifs with h
    · rw [ih, h, components_slash]
    · rfl

theorem components_of_peek {path : List UInt8} (h : peek path = 0) : components path = [] := by
  cases path with
  | nil => rfl
  | cons c path =>
    obtain rfl : c = 0 := h
    simp [components, cstr]

/-- A run of component bytes, up to a `/` or the NUL, is the first component. -/
theorem components_append {e r : List UInt8} (he : ∀ c ∈ e, inElem c) (hne : e ≠ [])
    (hr : peek r = 0 ∨ peek r = 47) : components (e ++ r) = e :: components r := by
  have hsep : ∀ c ∈ e, ¬ (c == 47) = true := fun c hc => by
    have := he c hc; simp only [inElem, Bool.and_eq_true, bne_iff_ne] at this; simpa using this.1
  have hcstr : cstr (e ++ r) = e ++ cstr r := List.takeWhile_append_of_pos fun c hc => by
    have := he c hc; simp only [inElem, Bool.and_eq_true, bne_iff_ne] at this; simpa using this.2
  rcases hr with hr | hr
  · rw [components_of_peek hr]
    have : cstr r = [] := by
      cases r with
      | nil => rfl
      | cons c r => obtain rfl : c = 0 := hr; rfl
    simp [components, hcstr, this, List.splitOn, List.splitOnP_eq_single _ _ hsep, hne]
  · cases r with
    | nil => exact absurd hr (by decide)
    | cons c r =>
      obtain rfl : c = 47 := hr
      rw [components_slash]
      have : cstr (47 :: r) = 47 :: cstr r := by simp [cstr]
      simp [components, hcstr, this, List.splitOn, List.splitOnP_first _ _ hsep, hne]

theorem peek_dropWhile (path : List UInt8) :
    peek (path.dropWhile inElem) = 0 ∨ peek (path.dropWhile inElem) = 47 := by
  induction path with
  | nil => exact .inl rfl
  | cons c path ih =>
    by_cases hc : inElem c
    · rwa [List.dropWhile_cons_of_pos hc]
    · rw [List.dropWhile_cons_of_neg hc]
      simp only [inElem, Bool.and_eq_true, bne_iff_ne, not_and_or, ne_eq, not_not] at hc
      exact hc.symm

/-- A path at a byte of a component starts with that component. -/
theorem components_takeWhile {path : List UInt8} (h0 : peek path ≠ 0) (h47 : peek path ≠ 47) :
    components path = path.takeWhile inElem :: components (path.dropWhile inElem) := by
  cases path with
  | nil => exact absurd rfl h0
  | cons c path =>
    have hc : inElem c = true := by simpa [inElem, peek] using And.intro h47 h0
    conv_lhs => rw [← List.takeWhile_append_dropWhile inElem (c :: path)]
    exact components_append (fun _ => List.mem_takeWhile_imp)
      (by simp [List.takeWhile_cons_of_pos hc]) (peek_dropWhile _)

theorem components_eq_nil_iff {path : List UInt8} (h47 : peek path ≠ 47) :
    components path = [] ↔ peek path = 0 := by
  refine ⟨fun h => ?_, components_of_peek⟩
  by_contra h0
  simp [components_takeWhile h0 h47] at h

/-- `skipelem` takes off the first component, which is at most `DIRSIZ` long; it leaves the
path at its NUL exactly when no component is left. -/
theorem skipelem_elem {path name rest : List UInt8} (h : skipelem G path = .elem name rest) :
    components path = name :: components rest ∧ name.length ≤ G.dirsiz ∧
      (peek rest = 0 ↔ components rest = []) := by
  unfold skipelem at h
  dsimp only at h
  rw [← components_skipSlashes path]
  have h47 := peek_skipSlashes path
  generalize skipSlashes path = q at h h47
  split_ifs at h with h0 hlong
  cases h
  refine ⟨?_, not_lt.1 hlong, (components_eq_nil_iff (peek_skipSlashes _)).symm⟩
  rw [components_skipSlashes]
  exact components_takeWhile h0 h47

theorem skipelem_done {path : List UInt8} (h : skipelem G path = .done) : components path = [] := by
  unfold skipelem at h
  dsimp only at h
  rw [← components_skipSlashes path]
  split_ifs at h with h0
  exact components_of_peek h0

theorem skipelem_tooLong {path : List UInt8} (h : skipelem G path = .tooLong) :
    ∃ c cs, components path = c :: cs ∧ G.dirsiz < c.length := by
  unfold skipelem at h
  dsimp only at h
  rw [← components_skipSlashes path]
  split_ifs at h with h0 hlong
  exact ⟨_, _, components_takeWhile h0 (peek_skipSlashes path), hlong⟩

end Lexer

/-! ## Lexing a whole path -/

section Lexing

variable (G : Geometry)

/-- `memmove(name, s, len); if (len < DIRSIZ) name[len] = 0;`: the name buffer after
`skipelem` copies a component into it. -/
def putName (name : List UInt8) (buf : Nat → UInt8) : Nat → UInt8 := fun k =>
  if k < name.length then name.getD k 0
  else if k = name.length ∧ name.length < G.dirsiz then 0 else buf k

/-- `skipelem` called again and again, each time on the path the last call left, as
`namex` calls it: what each call returns (1, -1 or 0) and the name buffer after it, up to
the first call that does not return 1. -/
def skipelemRun (path : List UInt8) (buf : Nat → UInt8) : List (Int × (Nat → UInt8)) :=
  match h : skipelem G path with
  | .done => [(0, buf)]
  | .tooLong => [(-1, buf)]
  | .elem name rest =>
    have : rest.length < path.length := skipelem_rest_lt h
    (1, putName G name buf) :: skipelemRun rest (putName G name buf)
termination_by path.length

/-- The lexer on a path whose components are `cs`: 1 for each component of at most
`DIRSIZ` bytes, copied into the name buffer, then -1 at the first longer one, or 0 when
none is left. -/
def lexSpec : List (List UInt8) → (Nat → UInt8) → List (Int × (Nat → UInt8))
  | [], buf => [(0, buf)]
  | c :: cs, buf =>
    if G.dirsiz < c.length then [(-1, buf)] else (1, putName G c buf) :: lexSpec cs (putName G c buf)

variable {G}

theorem skipelemRun_done {path : List UInt8} (h : skipelem G path = .done) (buf : Nat → UInt8) :
    skipelemRun G path buf = [(0, buf)] := by
  rw [skipelemRun]
  split <;> simp_all

theorem skipelemRun_tooLong {path : List UInt8} (h : skipelem G path = .tooLong) (buf : Nat → UInt8) :
    skipelemRun G path buf = [(-1, buf)] := by
  rw [skipelemRun]
  split <;> simp_all

theorem skipelemRun_elem {path name rest : List UInt8} (h : skipelem G path = .elem name rest)
    (buf : Nat → UInt8) :
    skipelemRun G path buf = (1, putName G name buf) :: skipelemRun G rest (putName G name buf) := by
  rw [skipelemRun]
  split <;> rename_i h' <;> rw [h] at h' <;> cases h'
  rfl

/-- The iterated `skipelem` is the lexer over the path's components. -/
theorem skipelemRun_eq_lexSpec (path : List UInt8) (buf : Nat → UInt8) :
    skipelemRun G path buf = lexSpec G (components path) buf :=
  match h : skipelem G path with
  | .done => by rw [skipelemRun_done h, skipelem_done h, lexSpec]
  | .tooLong => by
    obtain ⟨c, cs, hc, hlong⟩ := skipelem_tooLong h
    rw [skipelemRun_tooLong h, hc, lexSpec, if_pos hlong]
  | .elem name rest => by
    have : rest.length < path.length := skipelem_rest_lt h
    obtain ⟨hc, hlen, -⟩ := skipelem_elem h
    rw [skipelemRun_elem h, hc, lexSpec, if_neg (not_lt.2 hlen), skipelemRun_eq_lexSpec rest]
termination_by path.length

/-- `skipelem`'s own comment: `"a/bb/c"` gives three components, then 0. -/
example : (lexSpec ⟨64, 1, 12, by decide⟩ (components [97, 47, 98, 98, 47, 99]) fun _ => 0).map
    Prod.fst = [1, 1, 1, 0] := by decide

theorem replicate_skipSlashes (path : List UInt8) :
    ∃ k, path = List.replicate k 47 ++ skipSlashes path := by
  induction path with
  | nil => exact ⟨0, rfl⟩
  | cons c path ih =>
    unfold skipSlashes
    split_ifs with h
    · obtain ⟨k, hk⟩ := ih
      exact ⟨k + 1, by rw [h, List.replicate_succ, List.cons_append, ← hk]⟩
    · exact ⟨0, rfl⟩

/-- A call that returns 1 leaves the path past the `/`s before the component, the component
and the `/`s after it. -/
theorem skipelem_split {path name rest : List UInt8} (h : skipelem G path = .elem name rest) :
    ∃ k l, path = List.replicate k 47 ++ name ++ List.replicate l 47 ++ rest ∧ peek rest ≠ 47 := by
  unfold skipelem at h
  dsimp only at h
  obtain ⟨k, hk⟩ := replicate_skipSlashes path
  split_ifs at h
  cases h
  obtain ⟨l, hl⟩ := replicate_skipSlashes ((skipSlashes path).dropWhile inElem)
  refine ⟨k, l, ?_, peek_skipSlashes _⟩
  simp only [List.append_assoc]
  rw [← hl, List.takeWhile_append_dropWhile, ← hk]

/-- A component holds no NUL. -/
theorem skipelem_name_ne_zero {path name rest : List UInt8} (h : skipelem G path = .elem name rest) :
    ∀ c ∈ name, c ≠ 0 := by
  unfold skipelem at h
  dsimp only at h
  split_ifs at h
  cases h
  intro c hc
  have := List.mem_takeWhile_imp hc
  simp only [inElem, Bool.and_eq_true, bne_iff_ne] at this
  exact this.2

/-- The name buffer after a component of at most `DIRSIZ` bytes and no NUL is copied into
it: it holds the component, has a NUL in its `DIRSIZ` bytes exactly when the component is
shorter, and is untouched from byte `DIRSIZ` on. -/
theorem putName_spec {name : List UInt8} (hlen : name.length ≤ G.dirsiz)
    (hnz : ∀ c ∈ name, c ≠ 0) (buf : Nat → UInt8) :
    (∀ j < name.length, putName G name buf j = name.getD j 0) ∧
      ((∃ j < G.dirsiz, putName G name buf j = 0) ↔ name.length < G.dirsiz) ∧
      ∀ j, G.dirsiz ≤ j → putName G name buf j = buf j := by
  refine ⟨fun j hj => if_pos hj, ⟨?_, fun h => ⟨name.length, h, by simp [putName, h]⟩⟩,
    fun j hj => by rw [putName, if_neg (by omega), if_neg (by omega)]⟩
  rintro ⟨j, hj, h0⟩
  by_contra hlt
  have hjl : j < name.length := by omega
  rw [putName, if_pos hjl, List.getD_eq_getElem?_getD, List.getElem?_eq_getElem hjl,
    Option.getD_some] at h0
  exact hnz _ (List.getElem_mem _) h0

/-- The path lexer: `skipelem` called again and again on a path returns 1 for each of its
components in order while they have at most `DIRSIZ` bytes, then -1 at the first longer
one, or 0 when none is left. A call that returns 1 moves the path past the component and
the `/`s around it, so the path gets shorter, and leaves the component in the name buffer,
followed by a NUL exactly when it is shorter than `DIRSIZ`, with nothing written from byte
`DIRSIZ` on. -/
theorem skipelem_lexes (p : List UInt8) (buf : Nat → UInt8) :
    skipelemRun G p buf = lexSpec G (components p) buf ∧
      ∀ name rest, skipelem G p = .elem name rest →
        (∃ k l, p = List.replicate k 47 ++ name ++ List.replicate l 47 ++ rest ∧ peek rest ≠ 47) ∧
        rest.length < p.length ∧
        (∀ j < name.length, putName G name buf j = name.getD j 0) ∧
        ((∃ j < G.dirsiz, putName G name buf j = 0) ↔ name.length < G.dirsiz) ∧
        ∀ j, G.dirsiz ≤ j → putName G name buf j = buf j :=
  ⟨skipelemRun_eq_lexSpec p buf, fun _ _ h =>
    ⟨skipelem_split h, skipelem_rest_lt h,
      putName_spec (skipelem_elem h).2.1 (skipelem_name_ne_zero h) buf⟩⟩

end Lexing

/-! ## `namex` -/

section Namex

variable (E : Env)

/-- The loop of `namex(cwd, path, nameiparent, name)` at inode `ip`, with the name buffer
holding `name`: the inode it returns (`none` for the empty reference) and the buffer. -/
def namexLoop (wantParent : Bool) (ip : Nat) (name path : List UInt8) :
    SysM (Option Nat × List UInt8) :=
  match h : skipelem E.geo path with
  | .done => pure (if wantParent then none else some ip, name)
  | .tooLong => pure (none, name)
  | .elem name rest => do
    have : rest.length < path.length := skipelem_rest_lt h
    let type := ((← get).inodes ip).type
    if type = .free then throw (.panic "namex")
    if type ≠ .dir then return (none, name)
    if wantParent ∧ peek rest = 0 then return (some ip, name)
    match ← onInode ip (dirlookup E name) with
    | none => return (none, name)
    | some next => namexLoop wantParent next name rest
termination_by path.length

/-- `namex`: from `the_root`, the inode `root`, for a path that begins with `/`, and from
`cwd` otherwise. -/
def namex (root cwd : Nat) (path : List UInt8) (wantParent : Bool) (name : List UInt8) :
    SysM (Option Nat × List UInt8) :=
  namexLoop E wantParent (if peek path = 47 then root else cwd) name path

/-- `namei(cwd, path)`. -/
def namei (root cwd : Nat) (path : List UInt8) : SysM (Option Nat) :=
  Prod.fst <$> namex E root cwd path false []

/-- `nameiparent(cwd, path, name)`: the parent, and the buffer `name` it fills. -/
def nameiparent (root cwd : Nat) (path name : List UInt8) : SysM (Option Nat × List UInt8) :=
  namex E root cwd path true name

theorem namexLoop_done {wantParent : Bool} {ip : Nat} {name path : List UInt8}
    (h : skipelem E.geo path = .done) :
    namexLoop E wantParent ip name path = pure (if wantParent then none else some ip, name) := by
  rw [namexLoop]; split <;> simp_all

theorem namexLoop_tooLong {wantParent : Bool} {ip : Nat} {name path : List UInt8}
    (h : skipelem E.geo path = .tooLong) : namexLoop E wantParent ip name path = pure (none, name) := by
  rw [namexLoop]; split <;> simp_all

theorem namexLoop_elem_eq {wantParent : Bool} {ip : Nat} {name path c rest : List UInt8}
    (h : skipelem E.geo path = .elem c rest) :
    namexLoop E wantParent ip name path = (do
      let type := ((← get).inodes ip).type
      if type = .free then throw (.panic "namex")
      if type ≠ .dir then return (none, c)
      if wantParent ∧ peek rest = 0 then return (some ip, c)
      match ← onInode ip (dirlookup E c) with
      | none => return (none, c)
      | some next => namexLoop E wantParent next c rest) := by
  rw [namexLoop]
  split <;> rename_i h' <;> rw [h] at h' <;> cases h'
  rfl

/-- One component: the type checks, the early stop of `nameiparent`, and the lookup. -/
theorem namexLoop_elem {wantParent : Bool} {ip : Nat} {name path c rest : List UInt8}
    (h : skipelem E.geo path = .elem c rest) (s : Sys) :
    namexLoop E wantParent ip name path s =
      if (s.inodes ip).type = .free then .error (.panic "namex") s
      else if (s.inodes ip).type ≠ .dir then .ok (none, c) s
      else if wantParent ∧ peek rest = 0 then .ok (some ip, c) s
      else match onInode ip (dirlookup E c) s with
        | .ok none s₁ => .ok (none, c) s₁
        | .ok (some next) s₁ => namexLoop E wantParent next c rest s₁
        | .error e s₁ => .error e s₁ := by
  rw [namexLoop_elem_eq E h]
  simp only [SysM.bind_apply, SysM.get_apply]
  split_ifs <;> simp only [SysM.bind_apply, SysM.pure_apply, SysM.throw_apply]
  cases onInode ip (dirlookup E c) s with
  | ok v s₁ => cases v <;> rfl
  | error => rfl

/-! ## The reference fold -/

/-- The reference resolution: from `ip`, each component in turn; it fails when the
current inode is not a directory or `dirlookup` misses. -/
def resolve : Nat → List (List UInt8) → SysM (Option Nat)
  | ip, [] => pure (some ip)
  | ip, c :: cs => do
    if ((← get).inodes ip).type ≠ .dir then return none
    match ← onInode ip (dirlookup E c) with
    | none => return none
    | some next => resolve next cs

/-- `resolve` over all but the last component, then the directory it reaches, with the last
component as the name. -/
def resolveParent (ip : Nat) (cs : List (List UInt8)) (last : List UInt8) :
    SysM (Option (Nat × List UInt8)) := do
  match ← resolve E ip cs with
  | none => return none
  | some dp => return if ((← get).inodes dp).type = .dir then some (dp, last) else none

/-- Every inode that `dirlookup` returns along the walk of `cs` from `ip` has a non-zero
type. -/
def LookupsTyped : Nat → List (List UInt8) → Sys → Prop
  | _, [], _ => True
  | ip, c :: cs, s => ∀ next s', onInode ip (dirlookup E c) s = .ok (some next) s' →
      (s'.inodes next).type ≠ .free ∧ LookupsTyped next cs s'

variable {E}

theorem resolve_cons (ip : Nat) (c : List UInt8) (cs : List (List UInt8)) (s : Sys) :
    resolve E ip (c :: cs) s =
      if (s.inodes ip).type ≠ .dir then .ok none s
      else match onInode ip (dirlookup E c) s with
        | .ok none s₁ => .ok none s₁
        | .ok (some next) s₁ => resolve E next cs s₁
        | .error e s₁ => .error e s₁ := by
  simp only [resolve, SysM.bind_apply, SysM.get_apply]
  split_ifs <;> simp only [SysM.bind_apply, SysM.pure_apply]
  cases onInode ip (dirlookup E c) s with
  | ok v s₁ => cases v <;> rfl
  | error => rfl

/-- `skipelem` finds the end of a path with no component. -/
theorem skipelem_of_nil {path : List UInt8} (h : components path = []) :
    skipelem E.geo path = .done := by
  cases hs : skipelem E.geo path with
  | done => rfl
  | tooLong => obtain ⟨_, _, h', -⟩ := skipelem_tooLong hs; simp [h'] at h
  | elem n r => simp [(skipelem_elem hs).1] at h

/-- Without `nameiparent`, the loop is the fold of `dirlookup` over the components, while
no component is too long and no inode it reaches has type 0. -/
theorem namexLoop_resolve : ∀ (cs : List (List UInt8)) {ip : Nat} {name path : List UInt8}
    {s : Sys}, components path = cs → (∀ c ∈ cs, c.length ≤ E.geo.dirsiz) →
    (s.inodes ip).type ≠ .free → LookupsTyped E ip cs s →
    (Prod.fst <$> namexLoop E false ip name path) s = resolve E ip cs s
  | [], ip, name, path, s, hcs, _, _, _ => by
    simp [namexLoop_done E (skipelem_of_nil hcs), resolve]
  | c :: cs, ip, name, path, s, hcs, hlen, hty, hl => by
    cases h : skipelem E.geo path with
    | done => simp [skipelem_done h] at hcs
    | tooLong =>
      obtain ⟨c', cs', h', hlong⟩ := skipelem_tooLong h
      rw [h', List.cons.injEq] at hcs
      exact absurd (hlen c (.head _)) (hcs.1 ▸ not_le.2 hlong)
    | elem n r =>
      rw [(skipelem_elem h).1, List.cons.injEq] at hcs
      obtain ⟨rfl, hr⟩ := hcs
      rw [SysM.map_apply, namexLoop_elem E h, resolve_cons, if_neg hty]
      simp only [Bool.false_eq_true, false_and, if_false]
      split_ifs
      · rfl
      · obtain ⟨-, hcs⟩ := List.forall_mem_cons.1 hlen
        cases hlk : onInode ip (dirlookup E n) s with
        | error => rfl
        | ok v s' =>
          cases v with
          | none => rfl
          | some next =>
            obtain ⟨hnext, hl'⟩ := hl next s' hlk
            simpa only [SysM.map_apply] using namexLoop_resolve cs hr hcs hnext hl'

/-- A component longer than `DIRSIZ` makes the loop fail, whether or not it stops early. -/
theorem namexLoop_fails_of_long : ∀ (cs : List (List UInt8)) {wantParent : Bool} {ip : Nat}
    {name path : List UInt8} {s s' : Sys} {r : Option Nat × List UInt8},
    components path = cs → (∃ c ∈ cs, E.geo.dirsiz < c.length) →
    namexLoop E wantParent ip name path s = .ok r s' → r.1 = none
  | [], _, _, _, _, _, _, _, _, ⟨_, hc, _⟩, _ => absurd hc (List.not_mem_nil _)
  | c :: cs, wantParent, ip, name, path, s, s', r, hcs, hlong, hrun => by
    cases h : skipelem E.geo path with
    | done => simp [skipelem_done h] at hcs
    | tooLong =>
      rw [namexLoop_tooLong E h] at hrun
      cases hrun
      rfl
    | elem n rest =>
      obtain ⟨hcr, hn, hnil⟩ := skipelem_elem h
      rw [hcr, List.cons.injEq] at hcs
      obtain ⟨rfl, hr⟩ := hcs
      have hlong' : ∃ c ∈ cs, E.geo.dirsiz < c.length := by
        obtain ⟨c', hc', hl⟩ := hlong
        rcases List.mem_cons.1 hc' with rfl | hc'
        · omega
        · exact ⟨c', hc', hl⟩
      have hpeek : peek rest ≠ 0 := fun h0 => by
        obtain ⟨c', hc', -⟩ := hlong'
        rw [← hr, hnil.1 h0] at hc'
        exact List.not_mem_nil _ hc'
      rw [namexLoop_elem E h] at hrun
      simp only [hpeek, and_false, if_false] at hrun
      split_ifs at hrun
      · cases hrun
        rfl
      · split at hrun
        · cases hrun
          rfl
        · exact namexLoop_fails_of_long cs hr hlong' hrun
        · cases hrun

/-- For a path with a component, the loop without `nameiparent` is the loop with it,
followed by `dirlookup` of the name it returns, from every state. -/
theorem namexLoop_eq_parent_bind : ∀ (cs : List (List UInt8)) {ip : Nat}
    {name name' path : List UInt8} {s : Sys}, components path = cs → cs ≠ [] →
    (Prod.fst <$> namexLoop E false ip name path) s =
      (namexLoop E true ip name' path >>= fun r => match r.1 with
        | none => pure none
        | some dp => onInode dp (dirlookup E r.2)) s
  | [], _, _, _, _, _, _, hne => absurd rfl hne
  | c :: cs, ip, name, name', path, s, hcs, _ => by
    cases h : skipelem E.geo path with
    | done => simp [skipelem_done h] at hcs
    | tooLong => simp [namexLoop_tooLong E h]
    | elem n rest =>
      obtain ⟨hcr, -, hnil⟩ := skipelem_elem h
      rw [hcr, List.cons.injEq] at hcs
      obtain ⟨rfl, hr⟩ := hcs
      rw [SysM.map_apply, SysM.bind_apply, namexLoop_elem E h, namexLoop_elem E h]
      simp only [Bool.false_eq_true, false_and, if_false, true_and]
      split_ifs with hfree hdir hpeek
      · rfl
      · rfl
      · have hdone : ∀ j, namexLoop E false j n rest = pure (some j, n) := fun _ =>
          namexLoop_done E (skipelem_of_nil (hnil.1 hpeek))
        cases hlk : onInode ip (dirlookup E n) s with
        | ok v s₁ => cases v <;> simp [hdone, hlk]
        | error => simp [hlk]
      · cases hlk : onInode ip (dirlookup E n) s with
        | ok v s₁ =>
          cases v with
          | none => rfl
          | some next =>
            simpa only [SysM.map_apply, SysM.bind_apply] using
              namexLoop_eq_parent_bind cs hr (fun h0 => hpeek (hnil.2 (hr ▸ h0)))
        | error => rfl

theorem resolveParent_apply (ip : Nat) (cs : List (List UInt8)) (last : List UInt8) (s : Sys) :
    resolveParent E ip cs last s =
      match resolve E ip cs s with
      | .ok none s' => .ok none s'
      | .ok (some dp) s' => .ok (if (s'.inodes dp).type = .dir then some (dp, last) else none) s'
      | .error e s' => .error e s' := by
  simp only [resolveParent, SysM.bind_apply]
  cases resolve E ip cs s with
  | ok v s' => cases v <;> rfl
  | error => rfl

/-- With `nameiparent`, the loop is `resolve` over all but the last component and the type
check of the directory it reaches, while no component is too long and no inode it reaches
has type 0. -/
theorem namexLoop_parent : ∀ (init : List (List UInt8)) {last : List UInt8} {ip : Nat}
    {name path : List UInt8} {s : Sys}, components path = init ++ [last] →
    (∀ c ∈ init ++ [last], c.length ≤ E.geo.dirsiz) → (s.inodes ip).type ≠ .free →
    LookupsTyped E ip init s →
    ((fun r => r.1.map (·, r.2)) <$> namexLoop E true ip name path) s = resolveParent E ip init last s
  | init, last, ip, name, path, s, hcs, hlen, hty, hl => by
    cases h : skipelem E.geo path with
    | done => simp [skipelem_done h] at hcs
    | tooLong =>
      obtain ⟨c, cs, h', hlong⟩ := skipelem_tooLong h
      rw [h'] at hcs
      exact absurd (hlen c (hcs ▸ .head _)) (not_le.2 hlong)
    | elem n rest =>
      obtain ⟨hcr, -, hnil⟩ := skipelem_elem h
      rw [SysM.map_apply, namexLoop_elem E h, resolveParent_apply]
      cases init with
      | nil =>
        rw [hcr, List.nil_append, List.cons.injEq] at hcs
        obtain ⟨rfl, hrest⟩ := hcs
        by_cases hdir : (s.inodes ip).type = .dir <;>
          simp [resolve, hty, hdir, hnil.2 hrest]
      | cons c init =>
        rw [hcr, List.cons_append, List.cons.injEq] at hcs
        obtain ⟨rfl, hrest⟩ := hcs
        have hpeek : peek rest ≠ 0 := fun h0 => by simp [hnil.1 h0] at hrest
        simp only [resolve_cons, hty, hpeek, if_false, true_and]
        split_ifs
        · rfl
        · cases hlk : onInode ip (dirlookup E n) s with
          | ok v s₁ =>
            cases v with
            | none => rfl
            | some next =>
              obtain ⟨hnext, hl'⟩ := hl next s₁ hlk
              simpa only [SysM.map_apply, resolveParent_apply] using
                namexLoop_parent init hrest (fun c hc => hlen c (.tail _ hc)) hnext hl'
          | error => rfl

/-! ## `namei` and `nameiparent` -/

/-- Path resolution against the fold, from the root for a path that begins with `/` and from
`cwd` otherwise: `namei` is `resolve` over the components while none is longer than
`DIRSIZ` and neither the start nor an inode a lookup returns has type 0; both calls fail
when a component is longer than `DIRSIZ`; `nameiparent` is `resolve` over all but the last
component, then the type check of the directory it reaches; and, for a path with a
component, `namei` is `nameiparent` followed by `dirlookup` of the name it returns. -/
theorem namei_resolve (root cwd : Nat) (path : List UInt8) (s : Sys) :
    let start := if peek path = 47 then root else cwd
    ((∀ c ∈ components path, c.length ≤ E.geo.dirsiz) → (s.inodes start).type ≠ .free →
        LookupsTyped E start (components path) s →
        namei E root cwd path s = resolve E start (components path) s) ∧
      ((∃ c ∈ components path, E.geo.dirsiz < c.length) →
        (∀ r s', namei E root cwd path s = .ok r s' → r = none) ∧
          ∀ name r s', nameiparent E root cwd path name s = .ok r s' → r.1 = none) ∧
      (∀ init last name, components path = init ++ [last] →
        (∀ c ∈ components path, c.length ≤ E.geo.dirsiz) → (s.inodes start).type ≠ .free →
        LookupsTyped E start init s →
        ((fun r => r.1.map (·, r.2)) <$> nameiparent E root cwd path name) s =
          resolveParent E start init last s) ∧
      (components path ≠ [] → ∀ name, namei E root cwd path s =
        (nameiparent E root cwd path name >>= fun r => match r.1 with
          | none => pure none
          | some dp => onInode dp (dirlookup E r.2)) s) := by
  intro start
  refine ⟨fun hlen hty hl => namexLoop_resolve _ rfl hlen hty hl, fun hlong => ⟨?_, ?_⟩,
    fun init last name hcs hlen hty hl => namexLoop_parent init hcs (hcs ▸ hlen) hty hl,
    fun hne name => namexLoop_eq_parent_bind _ rfl hne⟩
  · intro r s' h
    rw [namei, namex, SysM.map_apply] at h
    split at h <;> cases h
    exact namexLoop_fails_of_long _ rfl hlong ‹_›
  · exact fun name r s' h => namexLoop_fails_of_long _ rfl hlong h

/-- The root, inode 1, names `"a"` as inode 2, a file: `namei` of `"/a"` is the fold, which
returns inode 2. -/
theorem namei_resolve_root_a :
    let E : Env := ⟨⟨64, 1, 12, by decide⟩, 100, fun _ => 0⟩
    let s : Sys := ⟨fun j => ⟨j, if j = 2 then .file else .dir, 0, 0, 1, 0, 0, fun _ => 0,
      some fun k => if k = [97] then some ⟨2, 0⟩ else none, 0, 1⟩,
      ⟨⟨fun _ => zeroBlock, fun _ => false, fun _ => zeroBlock⟩, fun _ => true, Transaction.empty⟩⟩
    namei E 1 1 [47, 97] s = resolve E 1 [[97]] s ∧ ∃ s', resolve E 1 [[97]] s = .ok (some 2) s' := by
  intro E s
  have hlk : LookupsTyped E 1 [[97]] s := fun next s' h => by
    cases h
    exact ⟨by decide, trivial⟩
  exact ⟨(namei_resolve 1 1 [47, 97] s).1 (by decide) (by decide) hlk, _, rfl⟩

/-- A `cwd` of type 0, inode 2, whose index is empty: no lookup returns an inode, yet `namei`
of `"a"` panics where the fold fails. -/
theorem namei_free_cwd :
    let E : Env := ⟨⟨64, 1, 12, by decide⟩, 100, fun _ => 0⟩
    let s : Sys := ⟨fun j => ⟨j, if j = 2 then .free else .dir, 0, 0, 1, 0, 0, fun _ => 0,
      some DirIndex.empty, 0, 1⟩,
      ⟨⟨fun _ => zeroBlock, fun _ => false, fun _ => zeroBlock⟩, fun _ => true, Transaction.empty⟩⟩
    (∀ c ∈ components [97], c.length ≤ E.geo.dirsiz) ∧ LookupsTyped E 2 (components [97]) s ∧
      namei E 1 2 [97] s = .error (.panic "namex") s ∧ resolve E 2 (components [97]) s = .ok none s := by
  intro E s
  refine ⟨by decide, (show LookupsTyped E 2 [[97]] s from fun next s' h => by cases h), ?_, rfl⟩
  rw [namei, namex, SysM.map_apply, if_neg (by decide), @namexLoop_elem E false 2 [] [97] [97] [] rfl s,
    if_pos (show (s.inodes 2).type = .free from rfl)]

end Namex

end Sv6Fs
