import RocketNpu.Lib.BitField
import RocketNpu.Drm.Stride

namespace RocketNpu.Registers
open BitFields Drm

/-- The `iomem` regions of a core. -/
inductive Iomem where
  | pc | cna | core
deriving DecidableEq, Repr

/-- A register word that was written. -/
structure Write where
  iomem : Iomem
  offset : ℕ
  word : BitVec 32
deriving DecidableEq, Repr

/-- `writel` stores the low 32 bits of what it is given. -/
def writel {w : ℕ} (iomem : Iomem) (offset : ℕ) (value : BitVec w) : Write :=
  ⟨iomem, offset, value.setWidth 32⟩

def regPcOperationEnable : ℕ := 0x08
def regPcBaseAddress : ℕ := 0x10
def regPcRegisterAmounts : ℕ := 0x14
def regPcInterruptMask : ℕ := 0x20
def regPcInterruptClear : ℕ := 0x24
def regPcTaskCon : ℕ := 0x30
def regPcTaskDmaBaseAddr : ℕ := 0x34

def regCnaSStatus : ℕ := 0x1000
def regCnaSPointer : ℕ := 0x1004
def regCoreSStatus : ℕ := 0x3000
def regCoreSPointer : ℕ := 0x3004

def rocketPcWritel {w : ℕ} (reg : ℕ) (value : BitVec w) : Write := writel .pc reg value

def rocketCnaWritel {w : ℕ} (reg : ℕ) (value : BitVec w) : Write :=
  writel .cna (reg - regCnaSStatus) value

def rocketCoreWritel {w : ℕ} (reg : ℕ) (value : BitVec w) : Write :=
  writel .core (reg - regCoreSStatus) value

def pcOperationEnableOpEn : BitField 32 := ⟨0, 1, by decide⟩

def pcBaseAddressPcSourceAddr : BitField 32 := ⟨4, 28, by decide⟩
def pcBaseAddressReserved0 : BitField 32 := ⟨1, 3, by decide⟩
def pcBaseAddressPcSel : BitField 32 := ⟨0, 1, by decide⟩

def pcRegisterAmountsPcDataAmount : BitField 32 := ⟨0, 16, by decide⟩

def pcTaskConReserved0 : BitField 32 := ⟨14, 18, by decide⟩
def pcTaskConTaskCountClear : BitField 32 := ⟨13, 1, by decide⟩
def pcTaskConTaskPpEn : BitField 32 := ⟨12, 1, by decide⟩
def pcTaskConTaskNumber : BitField 32 := ⟨0, 12, by decide⟩

def pcTaskDmaBaseAddrDmaBaseAddr : BitField 32 := ⟨4, 28, by decide⟩

def cnaSPointerPointerPpMode : BitField 32 := ⟨3, 1, by decide⟩
def cnaSPointerExecuterPpEn : BitField 32 := ⟨2, 1, by decide⟩
def cnaSPointerPointerPpEn : BitField 32 := ⟨1, 1, by decide⟩

def coreSPointerPointerPpMode : BitField 32 := ⟨3, 1, by decide⟩
def coreSPointerExecuterPpEn : BitField 32 := ⟨2, 1, by decide⟩
def coreSPointerPointerPpEn : BitField 32 := ⟨1, 1, by decide⟩

/-- The masks of the generated header. -/
example : pcBaseAddressPcSourceAddr.mask = 0xfffffff0 ∧ pcBaseAddressReserved0.mask = 0xe ∧
    pcRegisterAmountsPcDataAmount.mask = 0xffff ∧ pcTaskConReserved0.mask = 0xffffc000 := by
  decide

def pcInterruptMaskDpu0 : BitVec 32 := 0x100
def pcInterruptMaskDpu1 : BitVec 32 := 0x200
def pcInterruptClearDpu0 : BitVec 32 := 0x100
def pcInterruptClearDpu1 : BitVec 32 := 0x200

/-- The words `rocket_job_hw_submit` writes for a task to the core `index`; none while a
reset is pending. -/
def rocketJobHwSubmit (resetPending : Bool) (index : BitVec 32) (task : Task) : List Write :=
  if resetPending then []
  else
    -- the manual marks this bit as reserved
    let extraBit := 0x10000000 * index
    [rocketPcWritel regPcBaseAddress (1 : BitVec 32),
      rocketCnaWritel regCnaSPointer
        (cnaSPointerPointerPpEn.encode 1 ||| cnaSPointerExecuterPpEn.encode 1 |||
          cnaSPointerPointerPpMode.encode 1 ||| extraBit),
      rocketCoreWritel regCoreSPointer
        (coreSPointerPointerPpEn.encode 1 ||| coreSPointerExecuterPpEn.encode 1 |||
          coreSPointerPointerPpMode.encode 1 ||| extraBit),
      rocketPcWritel regPcBaseAddress task.regcmd,
      rocketPcWritel regPcRegisterAmounts
        (pcRegisterAmountsPcDataAmount.encode ((task.regcmdCount + 1) / 2 - 1)),
      rocketPcWritel regPcInterruptMask (pcInterruptMaskDpu0 ||| pcInterruptMaskDpu1),
      rocketPcWritel regPcInterruptClear (pcInterruptClearDpu0 ||| pcInterruptClearDpu1),
      rocketPcWritel regPcTaskCon
        (pcTaskConReserved0.encode 1 ||| pcTaskConTaskCountClear.encode 1 |||
          pcTaskConTaskNumber.encode 1 ||| pcTaskConTaskPpEn.encode 1),
      rocketPcWritel regPcTaskDmaBaseAddr (pcTaskDmaBaseAddrDmaBaseAddr.encode 0),
      rocketPcWritel regPcOperationEnable (pcOperationEnableOpEn.encode 1)]

/-- What a register of the PC block holds after the writes. -/
def pcWord (reg : ℕ) (ws : List Write) : Option (BitVec 32) :=
  (ws.reverse.find? fun x => x.iomem == .pc && x.offset == reg).map Write.word

/-- The words that were written mean this task: its command stream lies where the task says,
and the amount, which counts pairs and one less, covers it. -/
structure Describes (task : Task) (ws : List Write) : Prop where
  sourceAddr : ∀ word, pcWord regPcBaseAddress ws = some word →
    (pcBaseAddressPcSourceAddr.decode word).toNat * 16 = task.regcmd.toNat
  sel : ∀ word, pcWord regPcBaseAddress ws = some word →
    pcBaseAddressPcSel.decode word = 0 ∧ pcBaseAddressReserved0.decode word = 0
  amount : ∀ word, pcWord regPcRegisterAmounts ws = some word →
    (pcRegisterAmountsPcDataAmount.decode word).toNat + 1 = (task.regcmdCount.toNat + 1) / 2

/-- `rocket_copy_tasks` lets the task through, in some call. -/
def Accepted (task : Task) : Prop :=
  ∃ env desc tasks, copyTasks env desc = .ok tasks ∧ task ∈ tasks

theorem copyTask_ok {env : SubmitEnv} {desc : JobDesc} {i : ℕ} {task : Task}
    (h : copyTask env desc i = .ok task) : task.regcmdCount ≠ 0 := by
  unfold copyTask copyTaskAt at h
  split at h
  · cases h
  · split_ifs at h with h0
    cases h
    exact h0

/-- The only check is that the count is not zero. -/
theorem accepted_iff {task : Task} : Accepted task ↔ task.regcmdCount ≠ 0 := by
  constructor
  · rintro ⟨env, desc, tasks, hcopy, hmem⟩
    have hmap := congrArg Except.toOption hcopy
    rw [copyTasks, toOption_mapM] at hmap
    have hin : some task ∈ tasks.map some := List.mem_map_of_mem hmem
    rw [← map_of_mapM_eq_some hmap, List.mem_map] at hin
    obtain ⟨i, -, hi⟩ := hin
    cases hc : copyTask env desc i with
    | error e => simp [hc, Except.toOption] at hi
    | ok t =>
      obtain rfl : t = task := by simpa [hc, Except.toOption] using hi
      exact copyTask_ok hc
  · intro h
    refine ⟨{ SubmitEnv.smooth with task := fun _ _ => some task }, .oneTask, [task], ?_,
      List.mem_singleton_self task⟩
    have hone : List.range (BitVec.toNat JobDesc.oneTask.taskCount) = [0] := rfl
    have hcopy (i : ℕ) : copyTask { SubmitEnv.smooth with task := fun _ _ => some task }
        .oneTask i = .ok task := if_neg h
    simp only [copyTasks, hone, List.mapM_cons, hcopy]
    rfl

theorem pcWord_baseAddress (index : BitVec 32) (task : Task) :
    pcWord regPcBaseAddress (rocketJobHwSubmit false index task) =
      some (task.regcmd.setWidth 32) := rfl

theorem pcWord_registerAmounts (index : BitVec 32) (task : Task) :
    pcWord regPcRegisterAmounts (rocketJobHwSubmit false index task) =
      some (pcRegisterAmountsPcDataAmount.encode ((task.regcmdCount + 1) / 2 - 1)) :=
  congrArg some (BitVec.setWidth_eq _)

/-- An address survives if it has 32 bits and is a multiple of 16. -/
theorem sourceAddr_iff (regcmd : BitVec 64) :
    (pcBaseAddressPcSourceAddr.decode (regcmd.setWidth 32)).toNat * 16 = regcmd.toNat ↔
      regcmd.toNat < 4294967296 ∧ regcmd.toNat % 16 = 0 := by
  rw [BitField.decode_toNat, BitVec.toNat_setWidth]
  change regcmd.toNat % 4294967296 / 16 % 268435456 * 16 = regcmd.toNat ↔ _
  omega

theorem sel_of_aligned {regcmd : BitVec 64} (h : regcmd.toNat % 16 = 0) :
    pcBaseAddressPcSel.decode (regcmd.setWidth 32) = 0 ∧
      pcBaseAddressReserved0.decode (regcmd.setWidth 32) = 0 := by
  simp only [← BitVec.toNat_inj, BitField.decode_toNat, BitVec.toNat_setWidth]
  change regcmd.toNat % 4294967296 / 1 % 2 = 0 ∧ regcmd.toNat % 4294967296 / 2 % 8 = 0
  omega

/-- A count survives up to the 65536 pairs of the field; the largest one wraps before. -/
theorem amount_iff {count : BitVec 32} (h : count ≠ 0) :
    (pcRegisterAmountsPcDataAmount.decode
        (pcRegisterAmountsPcDataAmount.encode ((count + 1) / 2 - 1))).toNat + 1 =
        (count.toNat + 1) / 2 ↔ count.toNat ≤ 131072 := by
  have hpos : count.toNat ≠ 0 := fun h0 => h (BitVec.eq_of_toNat_eq h0)
  have hlt := count.isLt
  rw [BitField.decode_encode_toNat, BitVec.toNat_sub, BitVec.toNat_udiv, BitVec.toNat_add]
  change (4294967296 - 1 + (count.toNat + 1) % 4294967296 / 2) % 4294967296 % 65536 + 1 =
    (count.toNat + 1) / 2 ↔ _
  omega

/-- The words a core gets for an accepted task describe it exactly if the address has 32 bits
and is a multiple of 16, and there are at most 131072 register commands. -/
theorem describes_iff {task : Task} (h : Accepted task) (resetPending : Bool)
    (index : BitVec 32) :
    Describes task (rocketJobHwSubmit resetPending index task) ↔
      resetPending ∨ task.regcmd.toNat < 4294967296 ∧ task.regcmd.toNat % 16 = 0 ∧
        task.regcmdCount.toNat ≤ 131072 := by
  have hcount := accepted_iff.mp h
  cases resetPending with
  | true =>
    refine iff_of_true ⟨?_, ?_, ?_⟩ (.inl rfl)
    · rintro word ⟨⟩
    · rintro word ⟨⟩
    · rintro word ⟨⟩
  | false =>
    simp only [Bool.false_eq_true, false_or]
    constructor
    · intro hd
      obtain ⟨h1, h2⟩ := (sourceAddr_iff _).mp (hd.sourceAddr _ (pcWord_baseAddress index task))
      exact ⟨h1, h2, (amount_iff hcount).mp (hd.amount _ (pcWord_registerAmounts index task))⟩
    · rintro ⟨h1, h2, h3⟩
      refine ⟨?_, ?_, ?_⟩
      · intro word hword
        rw [pcWord_baseAddress, Option.some.injEq] at hword
        exact hword ▸ (sourceAddr_iff _).mpr ⟨h1, h2⟩
      · intro word hword
        rw [pcWord_baseAddress, Option.some.injEq] at hword
        exact hword ▸ sel_of_aligned h2
      · intro word hword
        rw [pcWord_registerAmounts, Option.some.injEq] at hword
        exact hword ▸ (amount_iff hcount).mpr h3

/-- The longest command stream the registers can name. -/
theorem describes_longest :
    Describes ⟨0xfffffff0, 131072⟩ (rocketJobHwSubmit false 2 ⟨0xfffffff0, 131072⟩) :=
  (describes_iff (accepted_iff.mpr (by decide)) false 2).mpr (.inr (by decide))

/-- One pair more than that runs a single pair. -/
theorem not_describes :
    Accepted ⟨0x1000, 131073⟩ ∧
      pcWord regPcRegisterAmounts (rocketJobHwSubmit false 0 ⟨0x1000, 131073⟩) = some 0 ∧
      ¬ Describes ⟨0x1000, 131073⟩ (rocketJobHwSubmit false 0 ⟨0x1000, 131073⟩) := by
  have hzero : pcWord regPcRegisterAmounts (rocketJobHwSubmit false 0 ⟨0x1000, 131073⟩) =
      some 0 := by decide
  refine ⟨accepted_iff.mpr (by decide), hzero, fun hd => ?_⟩
  exact absurd (hd.amount 0 hzero) (by decide)

end RocketNpu.Registers
