import Mathlib.Data.List.GetD
import Mathlib.Tactic.NormNum
import Sv6Fs.Ahci

/-! # The commands `issue` builds

Before its critical section (`Ahci.issue`), `ahci_port::issue` builds the command in the
slot's part of the port memory: `fill_prd_v` writes one PRD entry per `kiovec` and the
number of entries into the command header, and `fill_fis` copies the register FIS into the
command table and sets the header's `flags` to the FIS's length in dwords. The numbers the
driver's headers give the ATA and AHCI names it uses are parameters (`Names`); lengths and
offsets are `u64`s, reduced modulo `2^64` where the code adds or subtracts them.

* `Command.issue_spec`: what a slot holds after `issue` returns. Whatever the command, the
  header's `flags` end up as the FIS's length in dwords: the `AHCI_CMD_FLAGS_WRITE` bit
  `issue` sets for a write is overwritten by `fill_fis`, which runs after it.
* `Command.issue_describes`: when `off` is sector-aligned, the entries fit the PRD table
  and the total length is a whole number of sectors at most `DISK_REQMAX`, the slot then
  holds a command that describes the request: its PRD entries give back the `kiovec`s whose
  lengths fit the entries' byte counts, its FIS's six LBA bytes spell the sector offset
  `off / 512` modulo `2^48`, its sector count is the length in sectors, and no other slot
  changes.
* `ataByteswap_spec`: `ata_byteswap` swaps the bytes of each pair below its length rounded
  up to even, so it is its own inverse, and for an odd length it also writes the byte just
  past the buffer.
-/

namespace Sv6Fs.Ahci

namespace Command

/-! ## The port memory -/

/-- A `u64`. -/
def u64 (x : Nat) : Nat := x % 18446744073709551616

/-- The numbers the driver's headers give the names `issue` uses: `SATA_FIS_TYPE_REG_H2D`,
`SATA_FIS_REG_CFLAG`, `IDE_DEV_LBA`, `IDE_CTL_LBA48`, `IDE_CMD_READ_DMA_EXT`,
`IDE_CMD_WRITE_DMA_EXT`, `AHCI_CMD_FLAGS_WRITE`, `sizeof(struct sata_fis_reg)`,
`DISK_REQMAX`, the entries of a PRD table (`sizeof(cmd->prdt) / sizeof(cmd->prdt[0])`), and
the width in bits of `struct ahci_prd`'s `dbc` field. -/
structure Names where
  fisTypeRegH2d : Nat
  fisRegCflag : Nat
  ideDevLba : Nat
  ideCtlLba48 : Nat
  ideCmdReadDmaExt : Nat
  ideCmdWriteDmaExt : Nat
  ahciCmdFlagsWrite : Nat
  fisSize : Nat
  diskReqmax : Nat
  nprdt : Nat
  dbcBits : Nat

/-- `struct sata_fis_reg`, the fields `issue` sets. -/
structure SataFisReg where
  type : Nat
  cflag : Nat
  command : Nat
  devHead : Nat
  control : Nat
  sectorCount : Nat
  lba0 : Nat
  lba1 : Nat
  lba2 : Nat
  lba3 : Nat
  lba4 : Nat
  lba5 : Nat
  deriving DecidableEq, Repr

/-- A FIS after `memset(&fis, 0, sizeof(fis))`. -/
def SataFisReg.zero : SataFisReg := ⟨0, 0, 0, 0, 0, 0, 0, 0, 0, 0, 0, 0⟩

/-- The sector a FIS names: `lba_0` is its low byte, `lba_5` its high byte. -/
def SataFisReg.lba (f : SataFisReg) : Nat :=
  f.lba0 + 2 ^ 8 * f.lba1 + 2 ^ 16 * f.lba2 + 2 ^ 24 * f.lba3 + 2 ^ 32 * f.lba4 +
    2 ^ 40 * f.lba5

/-- `struct ahci_prd`: a data block's physical address, and its byte count less one. -/
structure Prd where
  dba : Nat
  dbc : Nat
  deriving DecidableEq, Repr

/-- `struct ahci_cmd_header`, the fields the driver writes. -/
structure CmdHeader where
  flags : Nat
  prdtl : Nat
  prdbc : Nat
  deriving DecidableEq, Repr

/-- `struct ahci_cmd_table`: the command FIS and the PRD table. -/
structure CmdTable where
  cfis : SataFisReg
  prdt : Nat → Prd

/-- `struct ahci_port_mem`: the command headers and tables, by command slot. -/
structure PortMem where
  cmdh : Nat → CmdHeader
  cmdt : Nat → CmdTable

/-- `struct kiovec`: a buffer's virtual address and length. -/
structure Kiovec where
  iovBase : Nat
  iovLen : Nat
  deriving DecidableEq, Repr

/-- Sets the command header of slot `s`. -/
def PortMem.setCmdh (mem : PortMem) (s : Nat) (h : CmdHeader) : PortMem :=
  { mem with cmdh := Function.update mem.cmdh s h }

/-- Sets the command table of slot `s`. -/
def PortMem.setCmdt (mem : PortMem) (s : Nat) (t : CmdTable) : PortMem :=
  { mem with cmdt := Function.update mem.cmdt s t }

/-- `portmem->cmdh[s].prdbc = v`. -/
def PortMem.setPrdbc (mem : PortMem) (s v : Nat) : PortMem :=
  mem.setCmdh s { mem.cmdh s with prdbc := v }

@[simp] theorem PortMem.setCmdh_cmdh (mem : PortMem) (s : Nat) (h : CmdHeader) :
    (mem.setCmdh s h).cmdh = Function.update mem.cmdh s h := rfl
@[simp] theorem PortMem.setCmdh_cmdt (mem : PortMem) (s : Nat) (h : CmdHeader) :
    (mem.setCmdh s h).cmdt = mem.cmdt := rfl
@[simp] theorem PortMem.setCmdt_cmdh (mem : PortMem) (s : Nat) (t : CmdTable) :
    (mem.setCmdt s t).cmdh = mem.cmdh := rfl
@[simp] theorem PortMem.setCmdt_cmdt (mem : PortMem) (s : Nat) (t : CmdTable) :
    (mem.setCmdt s t).cmdt = Function.update mem.cmdt s t := rfl

/-! ## `fill_prd_v`, `fill_fis` and `issue` -/

section Issue

variable (N : Names) (v2p : Nat → Nat)

/-- The PRD entry `fill_prd_v` writes for a `kiovec`: `dbc = iov_len - 1`, computed as a
`u64` and stored in a field of `dbcBits` bits. -/
def prdOf (v : Kiovec) : Prd :=
  ⟨v2p v.iovBase, u64 (v.iovLen + 18446744073709551615) % 2 ^ N.dbcBits⟩

/-- The loop of `fill_prd_v` from entry `slot` on, with the PRD table and `nbytes` so far. -/
def fillPrdLoop : List Kiovec → Nat → (Nat → Prd) → Nat → (Nat → Prd) × Nat
  | [], _, prdt, nbytes => (prdt, nbytes)
  | v :: iov, slot, prdt, nbytes =>
    fillPrdLoop iov (slot + 1) (Function.update prdt slot (prdOf N v2p v)) (u64 (nbytes + v.iovLen))

/-- `fill_prd_v(cmdslot, iov, iov_cnt)`, which returns the total length; `none` when its
assertion that the entries fit the PRD table fails. -/
def fillPrdV (mem : PortMem) (cmdslot : Nat) (iov : List Kiovec) : Option (PortMem × Nat) :=
  if iov.length < N.nprdt then
    let r := fillPrdLoop N v2p iov 0 (mem.cmdt cmdslot).prdt 0
    some (((mem.setCmdt cmdslot { mem.cmdt cmdslot with prdt := r.1 }).setCmdh cmdslot
      { mem.cmdh cmdslot with prdtl := iov.length }), r.2)
  else none

/-- `fill_fis(cmdslot, fis)`: the FIS into the command table, its length in dwords into the
header's `flags`. -/
def fillFis (mem : PortMem) (cmdslot : Nat) (fis : SataFisReg) : PortMem :=
  (mem.setCmdt cmdslot { mem.cmdt cmdslot with cfis := fis }).setCmdh cmdslot
    { mem.cmdh cmdslot with flags := N.fisSize / 4 }

/-- The FIS `issue` starts from, for command `cmd`. -/
def issueFis (cmd : Nat) : SataFisReg :=
  { SataFisReg.zero with type := N.fisTypeRegH2d, cflag := N.fisRegCflag, command := cmd }

/-- The FIS of a transfer of `len` bytes from byte `off` of the disk. -/
def lbaFis (fis : SataFisReg) (off len : Nat) : SataFisReg :=
  let sectorOff := off / 512
  { fis with
    devHead := N.ideDevLba
    control := N.ideCtlLba48
    sectorCount := len / 512
    lba0 := (sectorOff >>> 0) &&& 0xff
    lba1 := (sectorOff >>> 8) &&& 0xff
    lba2 := (sectorOff >>> 16) &&& 0xff
    lba3 := (sectorOff >>> 24) &&& 0xff
    lba4 := (sectorOff >>> 32) &&& 0xff
    lba5 := (sectorOff >>> 40) &&& 0xff }

/-- The header updates of `issue` for a transfer of `len` bytes: `prdbc` is 0 for a read;
for a write the header's `flags` get `AHCI_CMD_FLAGS_WRITE` and `prdbc` is `len`. -/
def transferHeader (mem : PortMem) (cmdslot cmd len : Nat) : PortMem :=
  let mem := if cmd = N.ideCmdReadDmaExt then mem.setPrdbc cmdslot 0 else mem
  if cmd = N.ideCmdWriteDmaExt then
    (mem.setCmdh cmdslot
      { mem.cmdh cmdslot with flags := (mem.cmdh cmdslot).flags ||| N.ahciCmdFlagsWrite }).setPrdbc
      cmdslot len
  else mem

/-- `issue(cmdslot, iov, iov_cnt, off, cmd)` up to `fill_fis`: the port memory with the
command built in slot `cmdslot`; `none` when one of its assertions fails. -/
def issue (mem : PortMem) (cmdslot : Nat) (iov : List Kiovec) (off cmd : Nat) :
    Option PortMem :=
  if off % 512 = 0 then
    match fillPrdV N v2p mem cmdslot iov with
    | some (mem, len) =>
      if len % 512 = 0 ∧ len ≤ N.diskReqmax then
        if len ≠ 0 then
          some (fillFis N (transferHeader N mem cmdslot cmd len) cmdslot
            (lbaFis N (issueFis N cmd) off len))
        else some (fillFis N (mem.setPrdbc cmdslot 0) cmdslot (issueFis N cmd))
      else none
    | none => none
  else none

end Issue

/-! ## What a slot holds afterwards -/

section Spec

variable {N : Names} {v2p : Nat → Nat}

/-- The buffers the first `n` entries of a PRD table describe: address and byte count. -/
def prdBuffers (prdt : Nat → Prd) (n : Nat) : List (Nat × Nat) :=
  (List.range n).map fun k => ((prdt k).dba, (prdt k).dbc + 1)

/-- The sum of the `kiovec`s' lengths. -/
def sumLen : List Kiovec → Nat
  | [] => 0
  | v :: iov => v.iovLen + sumLen iov

/-- The total length of the `kiovec`s, a `u64`. -/
def iovLen (iov : List Kiovec) : Nat := u64 (sumLen iov)

theorem fillPrdLoop_snd : ∀ (iov : List Kiovec) (slot : Nat) (prdt : Nat → Prd) {nbytes : Nat},
    nbytes < 18446744073709551616 →
      (fillPrdLoop N v2p iov slot prdt nbytes).2 = u64 (nbytes + sumLen iov)
  | [], _, _, _, h => by simp [fillPrdLoop, u64, sumLen, Nat.mod_eq_of_lt h]
  | v :: iov, slot, prdt, nbytes, _ => by
    rw [fillPrdLoop, fillPrdLoop_snd iov _ _
      (show u64 (nbytes + v.iovLen) < 18446744073709551616 from Nat.mod_lt _ (by decide)), u64, u64,
      Nat.mod_add_mod, sumLen, Nat.add_assoc]
    rfl

theorem fillPrdLoop_fst : ∀ (iov : List Kiovec) (slot : Nat) (prdt : Nat → Prd) (nbytes k : Nat),
    (fillPrdLoop N v2p iov slot prdt nbytes).1 k =
      if slot ≤ k ∧ k < slot + iov.length then prdOf N v2p (iov.getD (k - slot) ⟨0, 0⟩)
      else prdt k
  | [], slot, _, _, k => by
    rw [fillPrdLoop, if_neg (by simp only [List.length_nil, Nat.add_zero]; omega)]
  | v :: iov, slot, prdt, nbytes, k => by
    rw [fillPrdLoop, fillPrdLoop_fst iov]
    simp only [List.length_cons]
    split_ifs with h₁ h₂ h₂
    · rw [show k - slot = k - (slot + 1) + 1 by omega]
      rfl
    · omega
    · rw [show k = slot by omega, Function.update_same, Nat.sub_self]
      rfl
    · rw [Function.update_noteq (by omega)]

/-- `fill_prd_v` returns exactly when its entries fit; it then sets the PRD entries from 0
on and `prdtl` of the slot, and returns the total length. -/
theorem fillPrdV_eq (mem : PortMem) (cmdslot : Nat) (iov : List Kiovec) :
    fillPrdV N v2p mem cmdslot iov = if iov.length < N.nprdt then
      some (((mem.setCmdt cmdslot { mem.cmdt cmdslot with
        prdt := fun k => if k < iov.length then prdOf N v2p (iov.getD k ⟨0, 0⟩)
          else (mem.cmdt cmdslot).prdt k }).setCmdh cmdslot
        { mem.cmdh cmdslot with prdtl := iov.length }), iovLen iov)
    else none := by
  unfold fillPrdV
  split
  · dsimp only
    have h₁ : (fillPrdLoop N v2p iov 0 (mem.cmdt cmdslot).prdt 0).1 = fun k =>
        if k < iov.length then prdOf N v2p (iov.getD k ⟨0, 0⟩) else (mem.cmdt cmdslot).prdt k :=
      funext fun k => by simp [fillPrdLoop_fst]
    rw [h₁, fillPrdLoop_snd iov 0 _ (by decide), Nat.zero_add]
    rfl
  · rfl

/-- The entries for buffers of length 1 to `2^dbcBits`, below `2^64`, give back the buffers. -/
theorem prdBuffers_prdOf {iov : List Kiovec}
    (hlen : ∀ v ∈ iov, 0 < v.iovLen ∧ v.iovLen ≤ 2 ^ N.dbcBits ∧ v.iovLen < 18446744073709551616)
    (prdt : Nat → Prd) :
    prdBuffers (fun k => if k < iov.length then prdOf N v2p (iov.getD k ⟨0, 0⟩) else prdt k)
      iov.length = iov.map fun v => (v2p v.iovBase, v.iovLen) := by
  refine List.ext_get (by simp [prdBuffers]) fun k h₁ h₂ => ?_
  simp only [prdBuffers, List.length_range, List.get_eq_getElem, List.getElem_map,
    List.getElem_range]
  rw [List.length_map] at h₂
  have hv := hlen _ (List.getElem_mem h₂)
  simp only [if_pos h₂, prdOf, List.getD_eq_getElem iov _ h₂, Prod.mk.injEq, true_and, u64]
  -- `iov_len - 1` fits both the `u64` and the `dbc` field
  have h₆₄ : (iov[k].iovLen + 18446744073709551615) % 18446744073709551616 = iov[k].iovLen - 1 := by
    omega
  rw [h₆₄, Nat.mod_eq_of_lt (by omega)]
  omega

/-- The six LBA bytes of a transfer's FIS spell its sector offset modulo `2^48`. -/
theorem lbaFis_lba (fis : SataFisReg) (off len : Nat) :
    (lbaFis N fis off len).lba = off / 512 % 2 ^ 48 := by
  have hand : ∀ x : Nat, x &&& 0xff = x % 256 := fun x => Nat.and_pow_two_sub_one_eq_mod x 8
  -- the bits below `k + 8` are those below `k` and the byte from bit `k` on
  have hbyte : ∀ k : Nat, off / 512 % 2 ^ (k + 8) =
      off / 512 % 2 ^ k + 2 ^ k * (off / 512 / 2 ^ k % 256) := fun k => by
    rw [pow_add, Nat.mod_mul]
    rfl
  simp only [lbaFis, SataFisReg.lba, Nat.shiftRight_eq_div_pow, hand]
  rw [show 48 = 40 + 8 from rfl, hbyte, hbyte 32, hbyte 24, hbyte 16, hbyte 8, hbyte 0]
  simp only [pow_zero, Nat.mod_one, Nat.zero_add, Nat.one_mul]

@[simp] theorem fillFis_cmdh (mem : PortMem) (cmdslot : Nat) (fis : SataFisReg) :
    (fillFis N mem cmdslot fis).cmdh =
      Function.update mem.cmdh cmdslot { mem.cmdh cmdslot with flags := N.fisSize / 4 } := rfl

@[simp] theorem fillFis_cmdt (mem : PortMem) (cmdslot : Nat) (fis : SataFisReg) :
    (fillFis N mem cmdslot fis).cmdt =
      Function.update mem.cmdt cmdslot { mem.cmdt cmdslot with cfis := fis } := rfl

@[simp] theorem transferHeader_cmdt (mem : PortMem) (cmdslot cmd len : Nat) :
    (transferHeader N mem cmdslot cmd len).cmdt = mem.cmdt := by
  unfold transferHeader
  split_ifs <;> simp [PortMem.setPrdbc]

theorem transferHeader_cmdh (mem : PortMem) (cmdslot cmd len s : Nat) :
    (transferHeader N mem cmdslot cmd len).cmdh s =
      if s = cmdslot then
        { mem.cmdh s with
          flags := if cmd = N.ideCmdWriteDmaExt then (mem.cmdh s).flags ||| N.ahciCmdFlagsWrite
            else (mem.cmdh s).flags
          prdbc := if cmd = N.ideCmdWriteDmaExt then len
            else if cmd = N.ideCmdReadDmaExt then 0 else (mem.cmdh s).prdbc }
      else mem.cmdh s := by
  unfold transferHeader
  by_cases hs : s = cmdslot
  · subst hs
    rw [if_pos rfl]
    split_ifs <;> simp [PortMem.setPrdbc]
  · split_ifs <;> simp [PortMem.setPrdbc, Function.update_noteq hs]

/-- What `issue` leaves in slot `cmdslot` when it returns: the header counts the entries, and
its `flags` are the FIS's length in dwords; the PRD entries give back the `kiovec`s, their
byte counts read as `dbc + 1`; the FIS names the command, the sector offset modulo `2^48`
and the length in sectors, or no sector for a command without data. No other slot
changes. -/
theorem issue_spec {mem mem' : PortMem} {cmdslot : Nat} {iov : List Kiovec} {off cmd : Nat}
    (h : issue N v2p mem cmdslot iov off cmd = some mem') :
    mem'.cmdh cmdslot = { mem.cmdh cmdslot with
        flags := N.fisSize / 4
        prdtl := iov.length
        prdbc := if iovLen iov ≠ 0 ∧ cmd = N.ideCmdWriteDmaExt then iovLen iov
          else if iovLen iov = 0 ∨ cmd = N.ideCmdReadDmaExt then 0
          else (mem.cmdh cmdslot).prdbc } ∧
      (mem'.cmdt cmdslot).prdt = (fun k => if k < iov.length then prdOf N v2p (iov.getD k ⟨0, 0⟩)
        else (mem.cmdt cmdslot).prdt k) ∧
      (mem'.cmdt cmdslot).cfis = (if iovLen iov ≠ 0 then lbaFis N (issueFis N cmd) off (iovLen iov)
        else issueFis N cmd) ∧
      ∀ s, s ≠ cmdslot → mem'.cmdh s = mem.cmdh s ∧ mem'.cmdt s = mem.cmdt s := by
  unfold issue at h
  rw [fillPrdV_eq] at h
  by_cases h₀ : off % 512 = 0
  swap
  · simp [h₀] at h
  by_cases h₁ : iov.length < N.nprdt
  swap
  · simp [h₀, h₁] at h
  simp only [h₀, h₁, if_true] at h
  split_ifs at h with h₂ h₃ <;> cases h
  · refine ⟨?_, by simp, by simp [h₃], fun s hs => ?_⟩
    · simp [transferHeader_cmdh, h₃]
    · simp [transferHeader_cmdh, Function.update_noteq hs, hs]
  · rw [not_not] at h₃
    refine ⟨?_, by simp [PortMem.setPrdbc], by simp [h₃], fun s hs => ?_⟩
    · simp [PortMem.setPrdbc, h₃]
    · simp [PortMem.setPrdbc, Function.update_noteq hs]

/-- `issue` of a request whose `off` is sector-aligned, whose buffers fit the PRD table and
hold 1 to `2^64 - 1` bytes each, and whose total length is a whole number of sectors at most
`DISK_REQMAX`: it returns with a command in slot `cmdslot` that describes the request. The
header counts the buffers and the PRD entries give them back through `v2p`; the FIS carries
the command and, for a transfer, the sector offset `off / 512` modulo `2^48` in its six LBA
bytes and the length in sectors; no other slot changes. -/
theorem issue_describes (mem : PortMem) (cmdslot : Nat) {iov : List Kiovec} {off : Nat}
    (cmd : Nat) (halign : off % 512 = 0) (hfit : iov.length < N.nprdt)
    (hsec : iovLen iov % 512 = 0) (hmax : iovLen iov ≤ N.diskReqmax)
    (hlen : ∀ v ∈ iov, 0 < v.iovLen ∧ v.iovLen ≤ 2 ^ N.dbcBits ∧ v.iovLen < 18446744073709551616) :
    ∃ mem', issue N v2p mem cmdslot iov off cmd = some mem' ∧
      (mem'.cmdh cmdslot).prdtl = iov.length ∧
      prdBuffers (mem'.cmdt cmdslot).prdt (mem'.cmdh cmdslot).prdtl =
        iov.map (fun v => (v2p v.iovBase, v.iovLen)) ∧
      (mem'.cmdt cmdslot).cfis.command = cmd ∧
      (mem'.cmdt cmdslot).cfis.lba = (if iovLen iov = 0 then 0 else off / 512 % 2 ^ 48) ∧
      (mem'.cmdt cmdslot).cfis.sectorCount = iovLen iov / 512 ∧
      ∀ s, s ≠ cmdslot → mem'.cmdh s = mem.cmdh s ∧ mem'.cmdt s = mem.cmdt s := by
  obtain ⟨mem', h⟩ : ∃ mem', issue N v2p mem cmdslot iov off cmd = some mem' := by
    rw [issue, if_pos halign, fillPrdV_eq, if_pos hfit]
    dsimp only
    rw [if_pos ⟨hsec, hmax⟩]
    split_ifs <;> exact ⟨_, rfl⟩
  obtain ⟨hh, hp, hf, hs⟩ := issue_spec h
  refine ⟨mem', h, by rw [hh], by rw [hh, hp]; exact prdBuffers_prdOf hlen _, ?_, ?_, ?_, hs⟩ <;>
    rw [hf] <;> by_cases h0 : iovLen iov = 0
  -- the command
  · simp [h0, issueFis]
  · simp [h0, lbaFis, issueFis]
  -- the sector
  · simp [h0, issueFis, SataFisReg.zero, SataFisReg.lba]
  · simp [h0, lbaFis_lba]
  -- the sector count
  · simp [h0, issueFis, SataFisReg.zero]
  · simp [h0, lbaFis]

end Spec

/-! ## A command -/

/-- Numbers for a command: the FIS type and command codes of the ATA and AHCI
specifications, a register FIS of 20 bytes, the write flag as bit 6 of the header's
`flags`, a PRD table of 8 entries for requests of up to 64 KiB, and the AHCI
specification's 22-bit `dbc`. -/
def exampleNames : Names := ⟨0x27, 0x80, 0x40, 0x80, 0x25, 0x35, 0x40, 20, 65536, 8, 22⟩

/-- Port memory that holds 0 everywhere. -/
def PortMem.empty : PortMem := ⟨fun _ => ⟨0, 0, 0⟩, fun _ => ⟨SataFisReg.zero, fun _ => ⟨0, 0⟩⟩⟩

/-- A write of two sectors from address 4096 to byte 2048 of the disk, in slot 0. -/
theorem issue_describes_write :
    let iov : List Kiovec := [⟨4096, 1024⟩]
    2048 % 512 = 0 ∧ iov.length < exampleNames.nprdt ∧ iovLen iov % 512 = 0 ∧
      iovLen iov ≤ exampleNames.diskReqmax ∧
      (∀ v ∈ iov, 0 < v.iovLen ∧ v.iovLen ≤ 2 ^ exampleNames.dbcBits ∧
        v.iovLen < 18446744073709551616) ∧
      ∃ mem', issue exampleNames id PortMem.empty 0 iov 2048 0x35 = some mem' ∧
        (mem'.cmdh 0).prdtl = iov.length ∧
        prdBuffers (mem'.cmdt 0).prdt (mem'.cmdh 0).prdtl =
          iov.map (fun v => (id v.iovBase, v.iovLen)) ∧
        (mem'.cmdt 0).cfis.command = 0x35 ∧
        (mem'.cmdt 0).cfis.lba = (if iovLen iov = 0 then 0 else 2048 / 512 % 2 ^ 48) ∧
        (mem'.cmdt 0).cfis.sectorCount = iovLen iov / 512 ∧
        ∀ s, s ≠ 0 → mem'.cmdh s = PortMem.empty.cmdh s ∧ mem'.cmdt s = PortMem.empty.cmdt s :=
  ⟨by decide, by decide, by decide, by decide, by decide,
    issue_describes PortMem.empty 0 0x35 (by decide) (by decide) (by decide) (by decide)
      (by decide)⟩

/- The same write goes out with `flags` 5, without the write flag; a request of 1000 bytes,
not a whole number of sectors, fires an assertion. -/
example : (issue exampleNames id PortMem.empty 0 [⟨4096, 1024⟩] 2048 0x35).map
    (fun mem => ((mem.cmdh 0).flags, (mem.cmdh 0).flags &&& exampleNames.ahciCmdFlagsWrite)) =
      some (5, 0) := by decide
example : (issue exampleNames id PortMem.empty 0 [⟨4096, 1000⟩] 2048 0x35).isNone = true := by
  decide

end Command

/-! ## `ata_byteswap` -/

section Byteswap

/-- Swaps `buf[i]` and `buf[i+1]`: the body of `ata_byteswap`'s loop. -/
def swapPair (buf : Nat → UInt8) (i : Nat) : Nat → UInt8 :=
  Function.update (Function.update buf i (buf (i + 1))) (i + 1) (buf i)

/-- `ata_byteswap(buf, len)`: its loop runs for `i = 0, 2, 4, ...` while `i < len`. -/
def ataByteswap (buf : Nat → UInt8) (len : Nat) : Nat → UInt8 :=
  (List.range ((len + 1) / 2)).foldl (fun b k => swapPair b (2 * k)) buf

/-- After `n` passes the bytes below `2 * n` are swapped in pairs. -/
theorem swapPairs_apply (buf : Nat → UInt8) (n p : Nat) :
    (List.range n).foldl (fun b k => swapPair b (2 * k)) buf p =
      if p < 2 * n then buf (if p % 2 = 0 then p + 1 else p - 1) else buf p := by
  induction n generalizing p with
  | zero => simp
  | succ n ih =>
    rw [List.range_succ, List.foldl_append, List.foldl_cons, List.foldl_nil, swapPair]
    obtain h | rfl | rfl | h := show p < 2 * n ∨ p = 2 * n ∨ p = 2 * n + 1 ∨ 2 * n + 2 ≤ p by omega
    · rw [Function.update_noteq (by omega), Function.update_noteq (by omega), ih, if_pos h,
        if_pos (show p < 2 * (n + 1) by omega)]
    · rw [Function.update_noteq (by omega), Function.update_same, ih,
        if_neg (show ¬ 2 * n + 1 < 2 * n by omega), if_pos (show 2 * n < 2 * (n + 1) by omega),
        if_pos (show 2 * n % 2 = 0 by omega)]
    · rw [Function.update_same, ih, if_neg (show ¬ 2 * n < 2 * n by omega),
        if_pos (show 2 * n + 1 < 2 * (n + 1) by omega), if_neg (show ¬ (2 * n + 1) % 2 = 0 by omega)]
      rfl
    · rw [Function.update_noteq (by omega), Function.update_noteq (by omega), ih,
        if_neg (show ¬ p < 2 * n by omega), if_neg (show ¬ p < 2 * (n + 1) by omega)]

/-- `ata_byteswap(buf, len)` swaps the bytes of each pair `2k, 2k + 1` below `len` rounded
up to an even number, and no other byte, so it is its own inverse; for an odd `len` it
writes `buf[len]`, the byte just past the buffer. -/
theorem ataByteswap_spec (buf : Nat → UInt8) (len : Nat) :
    (∀ p, ataByteswap buf len p =
      if p < 2 * ((len + 1) / 2) then buf (if p % 2 = 0 then p + 1 else p - 1) else buf p) ∧
    ataByteswap (ataByteswap buf len) len = buf ∧
      (∀ p, len + len % 2 ≤ p → ataByteswap buf len p = buf p) ∧
      (len % 2 = 1 → ataByteswap buf len len = buf (len - 1)) := by
  refine ⟨swapPairs_apply buf _, funext fun p => ?_, fun p hp => ?_, fun h => ?_⟩ <;>
    simp only [ataByteswap, swapPairs_apply]
  · split_ifs <;> first | rfl | omega | (congr 1; omega)
  · rw [if_neg (by omega)]
  · rw [if_pos (by omega), if_neg (by omega)]

end Byteswap

end Sv6Fs.Ahci
