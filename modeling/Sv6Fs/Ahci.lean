import Mathlib.Data.List.Basic

/-! # The AHCI command-slot protocol

An `ahci_port` hands each command one of its `ncs` command slots. `alloc_cmdslot` takes a
slot with no completion object and no `ci` or `sact` bit, under `cmdslot_alloc_lock`;
`issue` then marks the slot in `cmds_issued` and sets its `ci` bit, again under the lock;
the device clears the `ci` bit when the command is done; `handle_port_irq`, from the
interrupt or from `blocking_wait`'s polling, notifies the completion of every slot that is
marked issued and whose `ci` bit is clear, and frees the slot.

Each of those critical sections is one step here, and each pass of `handle_port_irq`'s
loop is a step of its own that may run at any moment (`handle_port_irq_reachable` shows a
whole run of the loop is a sequence of them). The device may clear any set `ci` bit at any
moment. A completion object is named by the number of the call that created it. Ghost
fields record which slot each command was given, whether `issue` has set its bit, and
whether the device has cleared it.

* `ahci_slot_protocol`: in every reachable state, for any number of threads, no slot is
  held by two commands whose completions are pending; every completion is notified at most
  once, and only after the device cleared the `ci` bit `issue` set for it; bit `s` of
  `cmds_issued` is set exactly while slot `s` holds an issued command not yet handled.
-/

namespace Sv6Fs.Ahci

/-! ## Bits -/

/-- `1 << cmdslot`. -/
def bit (slot : Nat) : BitVec 32 := 1#32 <<< slot

@[simp] theorem getLsbD_bit (slot j : Nat) :
    (bit slot).getLsbD j = (decide (slot < 32) && decide (slot = j)) :=
  BitVec.getLsbD_twoPow slot j

@[simp] theorem getLsbD_and_lt (v : BitVec 32) (j : Nat) :
    (v.getLsbD j && decide (j < 32)) = v.getLsbD j := by
  by_cases hj : j < 32
  · simp [hj]
  · simp [BitVec.getLsbD_ge v j (by omega)]

/-- The code's test `v & (1 << slot)` reads bit `slot` of `v`. -/
@[simp] theorem and_bit_eq_zero (v : BitVec 32) (slot : Nat) :
    v &&& bit slot = 0#32 ↔ v.getLsbD slot = false := by
  constructor
  · intro h
    by_cases hs : slot < 32
    · simpa [hs] using congrArg (BitVec.getLsbD · slot) h
    · exact BitVec.getLsbD_ge v slot (by omega)
  · intro h
    ext j
    by_cases hj : slot = j <;> simp_all

@[simp] theorem getLsbD_and_not_bit (v : BitVec 32) (slot j : Nat) :
    (v &&& ~~~bit slot).getLsbD j = (v.getLsbD j && !decide (slot = j)) := by
  by_cases hj : j < 32
  · by_cases h : slot = j <;> simp [hj, h]
  · simp [BitVec.getLsbD_ge v j (by omega), hj]

/-! ## The port -/

/-- The host adapter's number of command slots, `CAP.NCS + 1`, from a five-bit field. -/
structure Hba where
  ncs : Nat
  ncs_pos : 0 < ncs
  ncs_le : ncs ≤ 32

/-- The port registers and driver fields the slot protocol reads: `preg->ci`, the slots whose
command the device has not completed; `preg->sact`, which the driver never writes;
`cmds_issued`; `last_cmdslot`; and `cmdslot_dc`, the completion object each slot holds. -/
structure Port where
  ci : BitVec 32
  sact : BitVec 32
  cmdsIssued : BitVec 32
  lastCmdslot : Int
  cmdslotDc : Nat → Option Nat

/-- The slots `alloc_cmdslot`'s loop tests, in order: from `last_cmdslot + 1` to the last
slot, then, with `all_scanned` set, every slot from 0. -/
def scanOrder (ncs : Nat) (last : Int) : List Nat :=
  let start := ((last + 1) % ncs).toNat
  List.range' start (ncs - start) ++ List.range ncs

/-- `alloc_cmdslot`'s test of a slot. -/
def Port.slotFree (p : Port) (slot : Nat) : Bool :=
  p.cmdslotDc slot = none ∧ p.ci &&& bit slot = 0#32 ∧ p.sact &&& bit slot = 0#32

/-- The slot `alloc_cmdslot`'s scan returns, if any. -/
def Port.findSlot (p : Port) (ncs : Nat) : Option Nat :=
  (scanOrder ncs p.lastCmdslot).find? p.slotFree

theorem findSlot_spec {p : Port} {ncs slot : Nat} (h : p.findSlot ncs = some slot) :
    slot < ncs ∧ p.cmdslotDc slot = none ∧ p.ci.getLsbD slot = false := by
  obtain ⟨hf, hm⟩ := List.find?_some h, List.mem_of_find?_eq_some h
  simp only [Port.slotFree, and_bit_eq_zero, decide_eq_true_eq] at hf
  simp only [scanOrder, List.mem_append, List.mem_range', List.mem_range] at hm
  exact ⟨by omega, hf.1, hf.2.1⟩

/-- Where a thread is in `areadv`, `awritev` or `aflush`: outside the driver or back from
`issue`; asleep on `cmdslot_alloc_cv` in `alloc_cmdslot`; or between `alloc_cmdslot`'s return
of `slot` and the critical section of `issue`, for completion object `id`. -/
inductive Pc where
  | idle
  | sleep
  | issuing (slot id : Nat)
  deriving DecidableEq

/-- The thread is issuing completion object `id`. -/
def Pc.hasCmd (id : Nat) : Pc → Bool
  | .issuing _ id' => id' = id
  | _ => false

/-- The port, the threads, the number of completion objects created so far and how many
times each was notified, and the ghost fields: the slot `alloc_cmdslot` gave each command,
whether `issue` has set its `ci` bit, and whether the device has cleared it. -/
structure St where
  port : Port
  threads : List Pc
  nextId : Nat
  notified : Nat → Nat
  slotOf : Nat → Option Nat
  issued : Nat → Bool
  cleared : Nat → Bool

section Steps

variable (h : Hba)

/-- `alloc_cmdslot` under `cmdslot_alloc_lock`: the slot the scan finds goes to a new
completion object, or the thread sleeps. -/
def allocCmdslot (s : St) (i : Nat) : St :=
  match s.port.findSlot h.ncs with
  | some slot =>
    { s with
      port := { s.port with
        cmdslotDc := Function.update s.port.cmdslotDc slot (some s.nextId)
        lastCmdslot := slot }
      threads := s.threads.set i (.issuing slot s.nextId)
      nextId := s.nextId + 1
      slotOf := Function.update s.slotOf s.nextId (some slot) }
  | none => { s with threads := s.threads.set i .sleep }

/-- The critical section of `issue`. A write to `ci` sets the bits written as one and
leaves the others. -/
def issue (s : St) (i slot id : Nat) : St :=
  { s with
    port := { s.port with
      cmdsIssued := s.port.cmdsIssued ||| bit slot
      ci := s.port.ci ||| bit slot }
    threads := s.threads.set i .idle
    issued := Function.update s.issued id true }

/-- One pass of `handle_port_irq`'s loop, for slot `slot`. -/
def handleSlot (s : St) (slot : Nat) : St :=
  match s.port.cmdslotDc slot with
  | some id =>
    if s.port.cmdsIssued &&& bit slot ≠ 0#32 ∧ s.port.ci &&& bit slot = 0#32 then
      { s with
        port := { s.port with
          cmdslotDc := Function.update s.port.cmdslotDc slot none
          cmdsIssued := s.port.cmdsIssued &&& ~~~bit slot }
        notified := Function.update s.notified id (s.notified id + 1) }
    else s
  | none => s

/-- `handle_port_irq`: its loop over the 32 slots. -/
def handlePortIrq (s : St) : St := (List.range 32).foldl handleSlot s

/-- The device completes the command in `slot` and clears its `ci` bit. -/
def complete (s : St) (slot : Nat) : St :=
  { s with
    port := { s.port with ci := s.port.ci &&& ~~~bit slot }
    cleared := match s.port.cmdslotDc slot with
      | some id => Function.update s.cleared id true
      | none => s.cleared }

/-- One step of the port: a thread allocates a slot (an idle thread entering
`alloc_cmdslot`, or a sleeping one woken), a thread runs `issue`, a pass of
`handle_port_irq`, or the device clears a set `ci` bit. -/
inductive Step : St → St → Prop
  | alloc {s : St} {i : Nat} (hi : s.threads[i]? = some .idle ∨ s.threads[i]? = some .sleep) :
      Step s (allocCmdslot h s i)
  | issue {s : St} {i slot id : Nat} (hi : s.threads[i]? = some (.issuing slot id)) :
      Step s (issue s i slot id)
  | irq {s : St} (slot : Nat) : Step s (handleSlot s slot)
  | device {s : St} (slot : Nat) (hc : s.port.ci.getLsbD slot = true) :
      Step s (complete s slot)

/-- A port after reset: no command anywhere; `sact` may hold anything. -/
def Init (s : St) : Prop :=
  s.port.ci = 0#32 ∧ s.port.cmdsIssued = 0#32 ∧ (∀ slot, s.port.cmdslotDc slot = none) ∧
    (∀ p ∈ s.threads, p = .idle) ∧ s.nextId = 0 ∧
    (∀ id, s.notified id = 0 ∧ s.slotOf id = none ∧ s.issued id = false ∧
      s.cleared id = false)

inductive Reachable : St → Prop
  | init {s : St} : Init s → Reachable s
  | step {s s' : St} : Reachable s → Step h s s' → Reachable s'

end Steps

/-! ## The invariant -/

/-- The slot protocol's invariant: identities from `nextId` on belong to no command yet; a
slot's completion object was given that slot and is not notified yet, and a command given a
slot and not notified yet is still that slot's completion; `cmds_issued` marks the slots
whose command has been issued, and `ci` those whose command is issued and not completed by
the device; a completion is notified at most once, after the device cleared its bit; a
thread between `alloc_cmdslot` and `issue` holds its slot, not yet issued, and no two
threads hold one command. -/
structure Inv (s : St) : Prop where
  fresh : ∀ id, s.nextId ≤ id → s.slotOf id = none ∧ s.issued id = false ∧ s.notified id = 0
  dc_slot : ∀ slot id, s.port.cmdslotDc slot = some id →
    s.slotOf id = some slot ∧ s.notified id = 0 ∧ slot < 32
  pending : ∀ id slot, s.slotOf id = some slot → s.notified id = 0 →
    s.port.cmdslotDc slot = some id
  issued_bit : ∀ slot, s.port.cmdsIssued.getLsbD slot = (s.port.cmdslotDc slot).any s.issued
  ci_bit : ∀ slot, s.port.ci.getLsbD slot =
    (s.port.cmdslotDc slot).any fun id => s.issued id && !s.cleared id
  cleared_issued : ∀ id, s.cleared id = true → s.issued id = true
  notified_le : ∀ id, s.notified id ≤ 1
  notified_cleared : ∀ id, 0 < s.notified id → s.cleared id = true
  issuing : ∀ slot id, Pc.issuing slot id ∈ s.threads →
    s.port.cmdslotDc slot = some id ∧ s.issued id = false
  unique : ∀ id, s.threads.countP (Pc.hasCmd id) ≤ 1

namespace Inv

variable {s : St} (hs : Inv s)
include hs

/-- A completion object sits in one slot only. -/
theorem dc_inj {slot slot' id : Nat} (h : s.port.cmdslotDc slot = some id)
    (h' : s.port.cmdslotDc slot' = some id) : slot' = slot := by
  have := (hs.dc_slot _ _ h).1
  rw [(hs.dc_slot _ _ h').1] at this
  exact Option.some_inj.1 this

/-- A command in a slot was created before. -/
theorem lt_nextId {slot id : Nat} (h : s.port.cmdslotDc slot = some id) : id < s.nextId := by
  by_contra hn
  have := (hs.fresh id (by omega)).1
  rw [(hs.dc_slot _ _ h).1] at this
  cases this

end Inv

theorem countP_set_add {l : List Pc} {i : Nat} {p : Pc} (h : l[i]? = some p) (f : Pc → Bool)
    (q : Pc) : (l.set i q).countP f + (if f p then 1 else 0) =
      l.countP f + (if f q then 1 else 0) := by
  obtain ⟨hi, rfl⟩ := List.getElem?_eq_some_iff.1 h
  have := List.boole_getElem_le_countP f l i hi
  rw [List.countP_set f l i q hi]
  omega

section Preservation

variable {h : Hba} {s : St} (hs : Inv s)
include hs

theorem inv_alloc {i : Nat} (hi : s.threads[i]? = some .idle ∨ s.threads[i]? = some .sleep) :
    Inv (allocCmdslot h s i) := by
  obtain ⟨p, hp, hpc⟩ : ∃ p, s.threads[i]? = some p ∧ ∀ id, p.hasCmd id = false :=
    hi.elim (fun hi => ⟨_, hi, fun _ => rfl⟩) (fun hi => ⟨_, hi, fun _ => rfl⟩)
  have hmem : ∀ {q : Pc} {slot id}, Pc.issuing slot id ∈ s.threads.set i q →
      Pc.issuing slot id ∈ s.threads ∨ q = .issuing slot id := fun hm =>
    (List.mem_or_eq_of_mem_set hm).imp id Eq.symm
  unfold allocCmdslot
  split
  case h_2 =>
    -- the scan finds nothing: the thread sleeps
    refine { hs with issuing := fun slot id hm => ?_, unique := fun id => ?_ }
    · exact hs.issuing slot id ((hmem hm).resolve_right nofun)
    · have hc := countP_set_add hp (Pc.hasCmd id) .sleep
      rw [hpc] at hc
      have := hs.unique id
      simp only [Pc.hasCmd] at hc ⊢
      omega
  case h_1 slot hf =>
    -- the slot goes to a new completion object
    obtain ⟨hlt, hdc, hci⟩ := findSlot_spec hf
    have hn := hs.fresh s.nextId le_rfl
    have hdc_ne : ∀ {slot' id}, s.port.cmdslotDc slot' = some id → slot' ≠ slot ∧ id ≠ s.nextId :=
      fun h' => ⟨fun e => by simp [e, hdc] at h', fun e => by have := hs.lt_nextId h'; omega⟩
    refine ⟨fun id hid => ?_, fun slot' id h' => ?_, fun id slot' h' hz => ?_, fun slot' => ?_,
      fun slot' => ?_, hs.cleared_issued, hs.notified_le, hs.notified_cleared,
      fun slot' id hm => ?_, fun id => ?_⟩ <;> simp only [Function.update_apply] at *
    · rw [if_neg (by omega)]
      exact hs.fresh id (by omega)
    · split at h'
      · cases h'
        simp [*, h.ncs_le.trans_lt' hlt]
      · obtain ⟨h1, h2, h3⟩ := hs.dc_slot _ _ h'
        simp [(hdc_ne h').2, h1, h2, h3]
    · split at h'
      · subst_vars
        simp_all
      · have := hs.pending _ _ h' hz
        simp [(hdc_ne this).1, this]
    · have := hs.issued_bit slot'
      split <;> simp_all
    · have := hs.ci_bit slot'
      split <;> simp_all [(hs.cleared_issued s.nextId).mt]
    · rcases hmem hm with hm | hm
      · obtain ⟨h1, h2⟩ := hs.issuing _ _ hm
        simp [(hdc_ne h1).1, h1, h2]
      · cases hm
        simp [hn.2.1]
    · have hc := countP_set_add hp (Pc.hasCmd id) (.issuing slot s.nextId)
      rw [hpc] at hc
      by_cases hid : id = s.nextId
      · -- no thread held the new object before
        subst hid
        have h0 : s.threads.countP (Pc.hasCmd s.nextId) = 0 := List.countP_eq_zero.2
          fun q hq hq' => by
            cases q <;> simp only [Pc.hasCmd, decide_eq_true_eq, Bool.false_eq_true] at hq'
            subst hq'
            exact (hdc_ne (hs.issuing _ _ hq).1).2 rfl
        simp [Pc.hasCmd, h0] at hc
        omega
      · simp [Pc.hasCmd, Ne.symm hid] at hc
        have := hs.unique id
        omega

theorem inv_issue {i slot id : Nat} (hi : s.threads[i]? = some (.issuing slot id)) :
    Inv (issue s i slot id) := by
  have hm := List.getElem?_mem hi
  obtain ⟨hdc, hiss⟩ := hs.issuing _ _ hm
  obtain ⟨hslot, -, hlt⟩ := hs.dc_slot _ _ hdc
  have hc := countP_set_add hi (Pc.hasCmd id) .idle
  have hu := hs.unique id
  simp only [Pc.hasCmd, decide_eq_true_eq, if_true, Bool.false_eq_true, if_false] at hc
  -- no other thread holds `id`, and no other slot does
  have hother : ∀ {slot' id'}, Pc.issuing slot' id' ∈ s.threads.set i .idle → id' ≠ id :=
    fun hm' e => by
      rw [e] at hm'
      have : 0 < (s.threads.set i .idle).countP (Pc.hasCmd id) :=
        List.countP_pos_iff.2 ⟨_, hm', by simp [Pc.hasCmd]⟩
      omega
  have hslot_ne : ∀ {slot' id'}, s.port.cmdslotDc slot' = some id' → slot' ≠ slot → id' ≠ id :=
    fun h' hne e => hne (by subst e; exact hs.dc_inj hdc h')
  refine ⟨fun id' hid => ?_, hs.dc_slot, hs.pending, fun slot' => ?_, fun slot' => ?_,
    fun id' hc' => ?_, hs.notified_le, hs.notified_cleared, fun slot' id' hm' => ?_,
    fun id' => ?_⟩ <;> simp only [issue, Function.update_apply] at *
  · have := hs.lt_nextId hdc
    rw [if_neg (by omega)]
    exact hs.fresh id' hid
  · by_cases hs' : slot = slot'
    · subst hs'
      simp [hdc, hlt]
    · have := hs.issued_bit slot'
      cases h' : s.port.cmdslotDc slot' with
      | none => simp_all
      | some id' => simp_all [hslot_ne h' (Ne.symm hs')]
  · by_cases hs' : slot = slot'
    · subst hs'
      simp [hdc, hlt, (hs.cleared_issued id).mt (by simp [hiss])]
    · have := hs.ci_bit slot'
      cases h' : s.port.cmdslotDc slot' with
      | none => simp_all
      | some id' => simp_all [hslot_ne h' (Ne.symm hs')]
  · split <;> simp [hs.cleared_issued id' hc']
  · have hne := hother hm'
    rw [if_neg hne]
    exact hs.issuing _ _ ((List.mem_or_eq_of_mem_set hm').resolve_right nofun)
  · have := countP_set_add hi (Pc.hasCmd id') .idle
    have := hs.unique id'
    simp only [Pc.hasCmd, Bool.false_eq_true, if_false] at *
    omega

theorem inv_handleSlot (slot : Nat) : Inv (handleSlot s slot) := by
  unfold handleSlot
  split
  case h_2 => exact hs
  case h_1 id hdc =>
  split
  case isFalse => exact hs
  case isTrue hb =>
  -- the slot's command was issued and the device has completed it
  simp only [ne_eq, and_bit_eq_zero, Bool.not_eq_false] at hb
  obtain ⟨hslot, hz, hlt⟩ := hs.dc_slot _ _ hdc
  have hiss : s.issued id = true := by simpa [hdc] using (hs.issued_bit slot).symm.trans hb.1
  have hcl : s.cleared id = true := by simpa [hdc, hiss] using (hs.ci_bit slot).symm.trans hb.2
  have hslot_ne : ∀ {slot' id'}, s.port.cmdslotDc slot' = some id' → slot' ≠ slot → id' ≠ id :=
    fun h' hne e => hne (by subst e; exact hs.dc_inj hdc h')
  refine ⟨fun id' hid => ?_, fun slot' id' h' => ?_, fun id' slot' h' hz' => ?_, fun slot' => ?_,
    fun slot' => ?_, hs.cleared_issued, fun id' => ?_, fun id' hpos => ?_,
    fun slot' id' hm => ?_, hs.unique⟩ <;>
    simp only [Function.update_apply, getLsbD_and_not_bit] at *
  · have := hs.lt_nextId hdc
    rw [if_neg (by omega)]
    exact hs.fresh id' hid
  · split at h'
    · cases h'
    · rw [if_neg (hslot_ne h' ‹_›)]
      exact hs.dc_slot _ _ h'
  · split at hz'
    · omega
    · rename_i hne
      have hp := hs.pending _ _ h' hz'
      have : slot' ≠ slot := fun e => hne (by subst e; simpa [hdc] using hp.symm)
      rw [if_neg this]
      exact hp
  · split
    · subst_vars; simp
    · rename_i hne
      simp [Ne.symm hne, hs.issued_bit slot']
  · split
    · subst_vars; simp [hb.2]
    · exact hs.ci_bit slot'
  · split
    · omega
    · exact hs.notified_le id'
  · split at hpos
    · subst_vars; exact hcl
    · exact hs.notified_cleared id' hpos
  · obtain ⟨h1, h2⟩ := hs.issuing _ _ hm
    have : slot' ≠ slot := fun e => by subst e; simp_all
    simp [this, h1, h2]

theorem inv_complete {slot : Nat} (hc : s.port.ci.getLsbD slot = true) :
    Inv (complete s slot) := by
  have hci := hs.ci_bit slot
  rw [hc] at hci
  obtain ⟨id, hdc⟩ : ∃ id, s.port.cmdslotDc slot = some id := by
    cases h' : s.port.cmdslotDc slot <;> simp_all
  simp only [hdc, Option.any_some, Bool.true_eq, Bool.and_eq_true, Bool.not_eq_true'] at hci
  have hslot_ne : ∀ {slot' id'}, s.port.cmdslotDc slot' = some id' → slot' ≠ slot → id' ≠ id :=
    fun h' hne e => hne (by subst e; exact hs.dc_inj hdc h')
  have hcl : (complete s slot).cleared = Function.update s.cleared id true := by
    simp [complete, hdc]
  refine ⟨hs.fresh, hs.dc_slot, hs.pending, hs.issued_bit, fun slot' => ?_, fun id' h' => ?_,
    hs.notified_le, fun id' hpos => ?_, hs.issuing, hs.unique⟩ <;>
    simp only [hcl, Function.update_apply] at *
  · simp only [complete, getLsbD_and_not_bit, hcl, Function.update_apply]
    by_cases hs' : slot = slot'
    · subst hs'
      simp [hdc]
    · have := hs.ci_bit slot'
      cases h' : s.port.cmdslotDc slot' with
      | none => simp_all
      | some id' => simp_all [hslot_ne h' (Ne.symm hs')]
  · split at h'
    · subst_vars; exact hci.1
    · exact hs.cleared_issued id' h'
  · split
    · rfl
    · exact hs.notified_cleared id' hpos

end Preservation

theorem inv_init {s : St} (h : Init s) : Inv s := by
  obtain ⟨hci, hiss, hdc, hth, -, hid⟩ := h
  have hu : ∀ id, s.threads.countP (Pc.hasCmd id) = 0 := fun id =>
    List.countP_eq_zero.2 fun q hq => by simp [hth q hq, Pc.hasCmd]
  exact ⟨fun id _ => by simp [hid], fun slot id h' => by simp [hdc] at h',
    fun id slot h' _ => by simp [hid] at h', fun slot => by simp [hiss, hdc],
    fun slot => by simp [hci, hdc], fun id h' => by simp [hid] at h', fun id => by simp [hid],
    fun id h' => by simp [hid] at h', fun slot id hm => absurd (hth _ hm) nofun,
    fun id => (hu id).trans_le (Nat.zero_le 1)⟩

theorem reachable_inv {h : Hba} {s : St} (hr : Reachable h s) : Inv s := by
  induction hr with
  | init hi => exact inv_init hi
  | step _ hstep ih =>
    cases hstep with
    | alloc hi => exact inv_alloc ih hi
    | issue hi => exact inv_issue ih hi
    | irq slot => exact inv_handleSlot ih slot
    | device slot hc => exact inv_complete ih hc

/-- A whole run of `handle_port_irq` is a sequence of passes of its loop. -/
theorem handle_port_irq_reachable {h : Hba} {s : St} (hr : Reachable h s) :
    Reachable h (handlePortIrq s) := by
  unfold handlePortIrq
  induction List.range 32 generalizing s with
  | nil => exact hr
  | cons slot rest ih => exact ih (.step hr (.irq slot))

/-! ## The protocol -/

/-- In every reachable state, for any number of threads: two commands given the same slot
are one command while its completion is pending; every completion object is notified at
most once, and only once `issue` has set the command's `ci` bit and the device has cleared
it; bit `slot` of `cmds_issued` is set exactly while the slot holds an issued command not
yet handled. -/
theorem ahci_slot_protocol {h : Hba} {s : St} (hr : Reachable h s) :
    (∀ id id' slot, s.slotOf id = some slot → s.slotOf id' = some slot →
      s.notified id = 0 → s.notified id' = 0 → id = id') ∧
    (∀ id, s.notified id ≤ 1 ∧ (0 < s.notified id → s.issued id = true ∧ s.cleared id = true)) ∧
    (∀ slot, s.port.cmdsIssued.getLsbD slot = true ↔
      ∃ id, s.port.cmdslotDc slot = some id ∧ s.issued id = true ∧ s.notified id = 0) := by
  have hs := reachable_inv hr
  refine ⟨fun id id' slot h1 h2 z1 z2 => ?_, fun id => ⟨hs.notified_le id, fun hp => ?_⟩,
    fun slot => ?_⟩
  · exact Option.some_inj.1 ((hs.pending _ _ h1 z1).symm.trans (hs.pending _ _ h2 z2))
  · have := hs.notified_cleared id hp
    exact ⟨hs.cleared_issued id this, this⟩
  · rw [hs.issued_bit slot]
    cases hdc : s.port.cmdslotDc slot with
    | none => simp
    | some id => simp [(hs.dc_slot _ _ hdc).2.1]

/-- A port of eight slots after reset, with one thread: it allocates slot 0 for completion
object 0 and issues the command; the device completes it, and a run of `handle_port_irq`
notifies the completion once and frees the slot. -/
theorem ahci_slot_protocol_one_command :
    let h : Hba := ⟨8, by decide, by decide⟩
    let s₀ : St := ⟨⟨0#32, 0#32, 0#32, -1, fun _ => none⟩, [.idle], 0, fun _ => 0,
      fun _ => none, fun _ => false, fun _ => false⟩
    let s := handlePortIrq (complete (issue (allocCmdslot h s₀ 0) 0 0 0) 0)
    s.notified 0 = 1 ∧ s.port.cmdslotDc 0 = none ∧
    (∀ id id' slot, s.slotOf id = some slot → s.slotOf id' = some slot →
      s.notified id = 0 → s.notified id' = 0 → id = id') ∧
    (∀ id, s.notified id ≤ 1 ∧ (0 < s.notified id → s.issued id = true ∧ s.cleared id = true)) ∧
    (∀ slot, s.port.cmdsIssued.getLsbD slot = true ↔
      ∃ id, s.port.cmdslotDc slot = some id ∧ s.issued id = true ∧ s.notified id = 0) := by
  intro h s₀ s
  have h₁ : Reachable h (allocCmdslot h s₀ 0) :=
    .step (.init ⟨rfl, rfl, fun _ => rfl, by simp [s₀], rfl, fun _ => ⟨rfl, rfl, rfl, rfl⟩⟩)
      (.alloc (.inl rfl))
  have h₂ : Reachable h (issue (allocCmdslot h s₀ 0) 0 0 0) := .step h₁ (.issue (by decide))
  have h₃ : Reachable h (complete (issue (allocCmdslot h s₀ 0) 0 0 0) 0) :=
    .step h₂ (.device 0 (by decide))
  exact ⟨by decide, by decide, ahci_slot_protocol (handle_port_irq_reachable h₃)⟩

end Sv6Fs.Ahci
