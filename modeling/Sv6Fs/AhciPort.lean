import Sv6Fs.AhciCommand

/-! # Commands in flight

`issue` builds its command in the slot's part of the port memory outside
`cmdslot_alloc_lock` (`Command.issue`), then marks the slot issued under it (`Ahci.issue`).
The build needs no lock because of the slot protocol: a thread builds only in the slot
`alloc_cmdslot` gave it, whose `ci` bit is clear, and no other thread gets that slot before
`handle_port_irq` frees it.

Here the slot protocol's state is extended with the port memory, each command's request,
and a ghost bit recording that its command has been built. The build is a step of its own,
between `alloc_cmdslot` and the critical section of `issue`, and the slot protocol sees it
as no step (`PReachable.reachable`).

* `port_commands_intact`: in every reachable state, for any number of threads, every slot
  whose `ci` bit is set holds the command `issue` built for the request of the command in
  it: the device never reads a command that another thread's build has overwritten.
-/

namespace Sv6Fs.Ahci

open Command

/-- The arguments of `issue`: the buffers, the disk offset, the ATA command. -/
structure Request where
  iov : List Kiovec
  off : Nat
  cmd : Nat

/-! ## What a slot holds -/

section Describes

variable (N : Names) (v2p : Nat → Nat)

/-- Slot `slot` of the port memory holds the command `issue` builds for request `r`: the
header's `flags` and `prdtl`, the PRD entries of the buffers, and the FIS. -/
def Describes (mem : PortMem) (slot : Nat) (r : Request) : Prop :=
  (mem.cmdh slot).flags = N.fisSize / 4 ∧ (mem.cmdh slot).prdtl = r.iov.length ∧
    (∀ k < r.iov.length, (mem.cmdt slot).prdt k = prdOf N v2p (r.iov.getD k ⟨0, 0⟩)) ∧
    (mem.cmdt slot).cfis =
      if iovLen r.iov ≠ 0 then lbaFis N (issueFis N r.cmd) r.off (iovLen r.iov)
      else issueFis N r.cmd

variable {N v2p}

theorem describes_of_issue {mem mem' : PortMem} {slot : Nat} {r : Request}
    (h : Command.issue N v2p mem slot r.iov r.off r.cmd = some mem') :
    Describes N v2p mem' slot r := by
  obtain ⟨hh, hp, hf, -⟩ := issue_spec h
  exact ⟨by rw [hh], by rw [hh], fun k hk => by simp only [hp, if_pos hk], hf⟩

/-- What a slot holds sees only that slot. -/
theorem Describes.congr {mem mem' : PortMem} {slot : Nat} {r : Request}
    (h : Describes N v2p mem slot r) (hh : mem'.cmdh slot = mem.cmdh slot)
    (ht : mem'.cmdt slot = mem.cmdt slot) : Describes N v2p mem' slot r := by
  unfold Describes
  rw [hh, ht]
  exact h

end Describes

/-! ## The port with its memory -/

/-- The port with its memory: the slot protocol's state, the port memory, each command's
request, and whether its command has been built. -/
structure PSt where
  st : St
  mem : PortMem
  req : Nat → Request
  built : Nat → Bool

section Steps

variable (h : Hba) (N : Names) (v2p : Nat → Nat)

/-- A step of the port with its memory. A thread entering `alloc_cmdslot` brings its
request, which the new command gets when a slot is free; a thread that holds a slot builds
its command there once, and the critical section of `issue` follows the build; the other
steps are the slot protocol's. -/
inductive PStep : PSt → PSt → Prop
  | alloc {s : PSt} {i : Nat} (r : Request)
      (hi : s.st.threads[i]? = some .idle ∨ s.st.threads[i]? = some .sleep) :
      PStep s { s with st := allocCmdslot h s.st i, req := Function.update s.req s.st.nextId r }
  | build {s : PSt} {i slot id : Nat} {mem : PortMem}
      (hi : s.st.threads[i]? = some (.issuing slot id)) (hb : s.built id = false)
      (hm : Command.issue N v2p s.mem slot (s.req id).iov (s.req id).off (s.req id).cmd =
        some mem) :
      PStep s { s with mem := mem, built := Function.update s.built id true }
  | issue {s : PSt} {i slot id : Nat} (hi : s.st.threads[i]? = some (.issuing slot id))
      (hb : s.built id = true) : PStep s { s with st := Ahci.issue s.st i slot id }
  | irq {s : PSt} (slot : Nat) : PStep s { s with st := handleSlot s.st slot }
  | device {s : PSt} (slot : Nat) (hc : s.st.port.ci.getLsbD slot = true) :
      PStep s { s with st := complete s.st slot }

/-- The port after reset: its memory holds anything, and no command is built. -/
def PInit (s : PSt) : Prop := Init s.st ∧ ∀ id, s.built id = false

inductive PReachable : PSt → Prop
  | init {s : PSt} : PInit s → PReachable s
  | step {s s' : PSt} : PReachable s → PStep h N v2p s s' → PReachable s'

variable {h N v2p}

/-- The slot protocol sees a build as no step. -/
theorem PReachable.reachable {s : PSt} (hr : PReachable h N v2p s) : Reachable h s.st := by
  induction hr with
  | init hi => exact .init hi.1
  | step _ hstep ih =>
    cases hstep with
    | alloc _ hi => exact .step ih (.alloc hi)
    | build => exact ih
    | issue hi _ => exact .step ih (.issue hi)
    | irq slot => exact .step ih (.irq slot)
    | device slot hc => exact .step ih (.device slot hc)

end Steps

/-! ## The steps of the slot protocol, seen from the memory -/

section Frame

variable {h : Hba} {s : St}

/-- `alloc_cmdslot` puts only the new command in a slot. -/
theorem allocCmdslot_dc {i slot id : Nat}
    (hd : (allocCmdslot h s i).port.cmdslotDc slot = some id) :
    s.port.cmdslotDc slot = some id ∨ id = s.nextId := by
  unfold allocCmdslot at hd
  split at hd
  · simp only [Function.update_apply] at hd
    split at hd
    · exact .inr (Option.some_inj.1 hd).symm
    · exact .inl hd
  · exact .inl hd

theorem allocCmdslot_nextId (i : Nat) : s.nextId ≤ (allocCmdslot h s i).nextId := by
  unfold allocCmdslot
  split <;> simp

@[simp] theorem allocCmdslot_issued (i : Nat) : (allocCmdslot h s i).issued = s.issued := by
  unfold allocCmdslot
  split <;> rfl

/-- `handle_port_irq` only takes commands out of slots. -/
theorem handleSlot_dc {slot slot' id : Nat}
    (hd : (handleSlot s slot).port.cmdslotDc slot' = some id) : s.port.cmdslotDc slot' = some id := by
  unfold handleSlot at hd
  split at hd
  · split at hd
    · simp only [Function.update_apply] at hd
      split at hd
      · cases hd
      · exact hd
    · exact hd
  · exact hd

@[simp] theorem handleSlot_nextId (slot : Nat) : (handleSlot s slot).nextId = s.nextId := by
  unfold handleSlot
  split
  · split <;> rfl
  · rfl

@[simp] theorem handleSlot_issued (slot : Nat) : (handleSlot s slot).issued = s.issued := by
  unfold handleSlot
  split
  · split <;> rfl
  · rfl

end Frame

/-! ## The invariant -/

section Invariant

variable {h : Hba} {N : Names} {v2p : Nat → Nat}

/-- The port memory's invariant: a command is built only once created and issued only once
built, and a built command still in its slot is described by the slot. -/
structure MemInv (N : Names) (v2p : Nat → Nat) (s : PSt) : Prop where
  fresh : ∀ id, s.st.nextId ≤ id → s.built id = false
  issued : ∀ id, s.st.issued id = true → s.built id = true
  describes : ∀ slot id, s.st.port.cmdslotDc slot = some id → s.built id = true →
    Describes N v2p s.mem slot (s.req id)

theorem memInv_init {s : PSt} (hi : PInit s) : MemInv N v2p s where
  fresh id _ := hi.2 id
  issued id h' := by simp [(hi.1.2.2.2.2.2 id).2.2.1] at h'
  describes slot id h' := by simp [hi.1.2.2.1 slot] at h'

/-- A step keeps the invariant: a build writes only the slot its thread holds, which holds no
other command. -/
theorem memInv_step {s s' : PSt} (hs : Inv s.st) (hm : MemInv N v2p s)
    (hstep : PStep h N v2p s s') : MemInv N v2p s' := by
  cases hstep with
  | alloc r _ =>
    refine ⟨fun id hid => hm.fresh id ((allocCmdslot_nextId _).trans hid),
      fun id h' => hm.issued id (by simpa using h'), fun slot id h' hb => ?_⟩
    have hne : id ≠ s.st.nextId := fun e => by simp [e, hm.fresh _ le_rfl] at hb
    have hdc := (allocCmdslot_dc h').resolve_right hne
    simp only [Function.update_noteq hne]
    exact hm.describes slot id hdc hb
  | @build i slot id mem' hi _ hmem =>
    obtain ⟨hdc, -⟩ := hs.issuing slot id (List.getElem?_mem hi)
    have hlt := hs.lt_nextId hdc
    refine ⟨fun id' hid => ?_, fun id' h' => ?_, fun slot' id' h' hb => ?_⟩ <;>
      simp only [Function.update_apply] at *
    · rw [if_neg (by omega)]
      exact hm.fresh id' hid
    · split
      · rfl
      · exact hm.issued id' h'
    · by_cases hs' : slot' = slot
      · -- the slot the build wrote holds the command built there
        subst hs'
        obtain rfl : id' = id := Option.some_inj.1 (h'.symm.trans hdc)
        exact describes_of_issue hmem
      · -- every other slot keeps its command
        have hne : id' ≠ id := fun e => hs' (hs.dc_inj hdc (e ▸ h'))
        rw [if_neg hne] at hb
        obtain ⟨-, -, -, hother⟩ := issue_spec hmem
        exact (hm.describes slot' id' h' hb).congr (hother slot' hs').1 (hother slot' hs').2
  | @issue i slot id _ hb =>
    refine ⟨hm.fresh, fun id' h' => ?_, hm.describes⟩
    simp only [Ahci.issue, Function.update_apply] at h'
    split at h'
    · subst_vars
      exact hb
    · exact hm.issued id' h'
  | irq slot =>
    exact ⟨fun id hid => hm.fresh id (by simpa using hid),
      fun id h' => hm.issued id (by simpa using h'),
      fun slot' id h' hb => hm.describes slot' id (handleSlot_dc h') hb⟩
  | device slot _ =>
    exact ⟨hm.fresh, hm.issued, hm.describes⟩

theorem PReachable.memInv {s : PSt} (hr : PReachable h N v2p s) : MemInv N v2p s := by
  induction hr with
  | init hi => exact memInv_init hi
  | step hr' hstep ih => exact memInv_step (reachable_inv hr'.reachable) ih hstep

/-- In every reachable state of the port with its memory, for any number of threads: every
slot whose `ci` bit is set holds a command issued and not yet completed by the device, and
the slot holds the command `issue` built for that command's request. The device therefore
never reads a command that another thread's build has overwritten. -/
theorem port_commands_intact {s : PSt} (hr : PReachable h N v2p s) (slot : Nat)
    (hci : s.st.port.ci.getLsbD slot = true) :
    ∃ id, s.st.port.cmdslotDc slot = some id ∧ s.st.issued id = true ∧
      s.st.cleared id = false ∧ Describes N v2p s.mem slot (s.req id) := by
  have hs := reachable_inv hr.reachable
  have hm := hr.memInv
  have hb := hs.ci_bit slot
  rw [hci] at hb
  cases hdc : s.st.port.cmdslotDc slot with
  | none => simp [hdc] at hb
  | some id =>
    simp only [hdc, Option.any_some, Bool.true_eq, Bool.and_eq_true, Bool.not_eq_true'] at hb
    exact ⟨id, rfl, hb.1, hb.2, hm.describes slot id hdc (hm.issued id hb.1)⟩

/-- A port of eight slots after reset, with one idle thread, whose requests are a write of two
sectors from address 4096 to byte 2048 of the disk. -/
def resetPort : PSt :=
  ⟨⟨⟨0#32, 0#32, 0#32, -1, fun _ => none⟩, [.idle], 0, fun _ => 0, fun _ => none,
    fun _ => false, fun _ => false⟩, PortMem.empty, fun _ => ⟨[⟨4096, 1024⟩], 2048, 0x35⟩,
    fun _ => false⟩

/-- Its thread allocates slot 0, builds its command there and issues it: slot 0's `ci` bit is
then set, and the slot holds that command. -/
theorem port_commands_intact_write :
    ∃ s : PSt, PReachable ⟨8, by decide, by decide⟩ exampleNames id s ∧
      s.st.port.ci.getLsbD 0 = true ∧
      ∃ c, s.st.port.cmdslotDc 0 = some c ∧ s.st.issued c = true ∧ s.st.cleared c = false ∧
        Describes exampleNames id s.mem 0 (s.req c) := by
  have r₀ : PReachable ⟨8, by decide, by decide⟩ exampleNames id resetPort :=
    .init ⟨⟨rfl, rfl, fun _ => rfl, by simp [resetPort], rfl, fun _ => ⟨rfl, rfl, rfl, rfl⟩⟩,
      fun _ => rfl⟩
  have r₁ := r₀.step (.alloc ⟨[⟨4096, 1024⟩], 2048, 0x35⟩ (i := 0) (.inl rfl))
  have hi : (allocCmdslot ⟨8, by decide, by decide⟩ resetPort.st 0).threads[0]? =
      some (.issuing 0 0) := by decide
  have r₂ := r₁.step (.build hi rfl rfl)
  have r₃ := r₂.step (.issue hi (by simp))
  have hci : (Ahci.issue (allocCmdslot ⟨8, by decide, by decide⟩ resetPort.st 0) 0 0 0).port.ci.getLsbD
      0 = true := by decide
  exact ⟨_, r₃, hci, port_commands_intact r₃ 0 hci⟩

end Invariant

end Sv6Fs.Ahci
