import Mathlib.Data.Int.Notation
import Mathlib.Order.Nat
import Mathlib.Tactic.SplitIfs
import RocketNpu.Errno

namespace RocketNpu.Drm

/-- `LONG_MAX`, which is also `MAX_SCHEDULE_TIMEOUT`. -/
def longMax : ℕ := 9223372036854775807

/-- `MAX_ERRNO`. -/
def maxErrno : ℕ := 4095

/-- A `long` returned from a function of type `int`. -/
def intOfLong (ret : ℤ) : ℤ := (BitVec.ofInt 32 ret).toInt

/-- `drm_timeout_abs_to_jiffies` at the time `now`, with `tick` nanoseconds to a jiffy. -/
def drmTimeoutAbsToJiffies (tick now : ℕ) (timeoutNs : BitVec 64) : ℕ :=
  if timeoutNs = 0 then 0
  else if timeoutNs.toInt ≤ now then 0
  else
    let jiffies := (timeoutNs.toInt - now).toNat / tick
    if longMax - 1 ≤ jiffies then longMax - 1 else jiffies + 1

/-- What `dma_resv_wait_timeout` came to. -/
inductive WaitReply where
  | signalled (remaining : ℕ)
  | expired
  | failed (errno : ℕ)
deriving DecidableEq, Repr

def WaitReply.ret : WaitReply → ℤ
  | .signalled remaining => remaining
  | .expired => 0
  | .failed errno => -errno

/-- The replies there are to a wait of `timeout` jiffies; one that only polls says 1. -/
def WaitReply.Possible (timeout : ℕ) : WaitReply → Prop
  | .signalled remaining => 1 ≤ remaining ∧ remaining ≤ max timeout 1
  | .expired => True
  | .failed errno => 1 ≤ errno ∧ errno ≤ maxErrno

instance (timeout : ℕ) (reply : WaitReply) : Decidable (reply.Possible timeout) := by
  cases reply <;> unfold WaitReply.Possible <;> infer_instance

/-- A `drm_rocket_prep_bo`. -/
structure PrepBoArgs where
  handle : BitVec 32
  reserved : BitVec 32
  timeoutNs : BitVec 64
deriving DecidableEq, Repr

/-- `rocket_ioctl_prep_bo` on a file with the handles `table`. The errors are `-EINVAL`,
`-ENOENT`, `-ETIMEDOUT` and `-EBUSY`. -/
def rocketIoctlPrepBo (tick now : ℕ) (table : List (ℕ × ℕ)) (args : PrepBoArgs)
    (reply : WaitReply) : ℤ :=
  let timeout := drmTimeoutAbsToJiffies tick now args.timeoutNs
  if args.reserved ≠ 0 then -22
  else
    match table.lookup args.handle.toNat with
    | none => -2
    | some _ =>
      intOfLong (if reply.ret = 0 then (if timeout ≠ 0 then -110 else -16) else reply.ret)

theorem intOfLong_eq (ret : ℤ) :
    intOfLong ret =
      if ret % 4294967296 < 2147483648 then ret % 4294967296
      else ret % 4294967296 - 4294967296 := by
  unfold intOfLong
  rw [BitVec.toInt_ofInt, Int.bmod_def]
  rfl

/-- A `long` that is an `int` is returned as it is. -/
theorem intOfLong_of_int {ret : ℤ} (hlow : -2147483648 ≤ ret) (hhigh : ret < 2147483648) :
    intOfLong ret = ret := by
  rw [intOfLong_eq]
  split_ifs <;> omega

/-- The sign of a remaining time is bit 31 of it. -/
theorem intOfLong_nonneg_iff (remaining : ℕ) :
    0 ≤ intOfLong remaining ↔ remaining % 4294967296 < 2147483648 := by
  rw [intOfLong_eq]
  split_ifs <;> omega

theorem drmTimeoutAbsToJiffies_le (tick now : ℕ) (timeoutNs : BitVec 64) :
    drmTimeoutAbsToJiffies tick now timeoutNs ≤ longMax - 1 := by
  unfold drmTimeoutAbsToJiffies
  dsimp only
  split_ifs <;> omega

variable {tick now b : ℕ} {table : List (ℕ × ℕ)} {args : PrepBoArgs} {reply : WaitReply}

/-- The result on an existing BO is what the wait came to, squeezed into an `int`. -/
theorem prepBo_eq (hreserved : args.reserved = 0)
    (hbo : table.lookup args.handle.toNat = some b) :
    rocketIoctlPrepBo tick now table args reply =
      intOfLong (if reply.ret = 0 then
        (if drmTimeoutAbsToJiffies tick now args.timeoutNs ≠ 0 then -110 else -16)
        else reply.ret) := by
  simp [rocketIoctlPrepBo, hreserved, hbo]

theorem prepBo_signalled (hreserved : args.reserved = 0)
    (hbo : table.lookup args.handle.toNat = some b) {remaining : ℕ} (hpos : 1 ≤ remaining) :
    rocketIoctlPrepBo tick now table args (.signalled remaining) = intOfLong remaining := by
  have hne : ¬ (remaining : ℤ) = 0 := by omega
  rw [prepBo_eq hreserved hbo]
  change intOfLong (if (remaining : ℤ) = 0 then _ else (remaining : ℤ)) = _
  rw [if_neg hne]

/-- A wait that did not succeed gives a negative result, at every time and timeout. -/
theorem prepBo_neg (hreserved : args.reserved = 0)
    (hbo : table.lookup args.handle.toNat = some b)
    (hreply : reply.Possible (drmTimeoutAbsToJiffies tick now args.timeoutNs))
    (hfail : ∀ remaining, reply ≠ .signalled remaining) :
    rocketIoctlPrepBo tick now table args reply < 0 := by
  rw [prepBo_eq hreserved hbo]
  cases reply with
  | signalled remaining => exact absurd rfl (hfail remaining)
  | expired =>
    simp only [WaitReply.ret, if_true]
    split_ifs <;> decide
  | failed errno =>
    obtain ⟨hpos, hle⟩ := hreply
    unfold maxErrno at hle
    have hne : ¬ -(errno : ℤ) = 0 := by omega
    change intOfLong (if -(errno : ℤ) = 0 then _ else -(errno : ℤ)) < 0
    rw [if_neg hne, intOfLong_of_int (by omega) (by omega)]
    omega

/-- Whatever the wait came to, the sign of the result tells whether it succeeded exactly if a
remaining time has its low word below 2^31. -/
theorem prepBo_tells_iff (hreserved : args.reserved = 0)
    (hbo : table.lookup args.handle.toNat = some b)
    (hreply : reply.Possible (drmTimeoutAbsToJiffies tick now args.timeoutNs)) :
    (rocketIoctlPrepBo tick now table args reply < 0 ↔
        ∀ remaining, reply ≠ .signalled remaining) ↔
      ∀ remaining, reply = .signalled remaining → remaining % 4294967296 < 2147483648 := by
  by_cases hfail : ∀ remaining, reply ≠ .signalled remaining
  · have hneg := prepBo_neg hreserved hbo hreply hfail
    exact iff_of_true (iff_of_true hneg hfail) fun remaining h => absurd h (hfail remaining)
  · obtain ⟨remaining, rfl⟩ : ∃ remaining, reply = .signalled remaining := by
      simpa using hfail
    rw [prepBo_signalled hreserved hbo hreply.1, iff_false_right hfail, Int.not_lt,
      intOfLong_nonneg_iff]
    simp only [WaitReply.signalled.injEq, forall_eq']

/-- A timeout below 2^31 jiffies is safe. -/
theorem prepBo_tells_of_short (hreserved : args.reserved = 0)
    (hbo : table.lookup args.handle.toNat = some b)
    (hreply : reply.Possible (drmTimeoutAbsToJiffies tick now args.timeoutNs))
    (hshort : drmTimeoutAbsToJiffies tick now args.timeoutNs < 2147483648) :
    rocketIoctlPrepBo tick now table args reply < 0 ↔
      ∀ remaining, reply ≠ .signalled remaining := by
  by_cases hfail : ∀ remaining, reply ≠ .signalled remaining
  · exact iff_of_true (prepBo_neg hreserved hbo hreply hfail) hfail
  · obtain ⟨remaining, rfl⟩ : ∃ remaining, reply = .signalled remaining := by
      simpa using hfail
    obtain ⟨hpos, hle⟩ := hreply
    have hnonneg := (intOfLong_nonneg_iff remaining).mpr (by omega)
    rw [prepBo_signalled hreserved hbo hpos]
    exact iff_of_false (Int.not_lt.mpr hnonneg) hfail

/-- One BO, under handle 1; the wait is for ever. -/
def foreverArgs : PrepBoArgs := ⟨1, 0, 9223372036854775807⟩

theorem prepBo_tells_polled :
    rocketIoctlPrepBo 4000000 60000000000 [(1, 0)] foreverArgs (.signalled 1) < 0 ↔
      ∀ remaining, WaitReply.signalled 1 ≠ .signalled remaining := by
  have hreply : (WaitReply.signalled 1).Possible
      (drmTimeoutAbsToJiffies 4000000 60000000000 foreverArgs.timeoutNs) := by decide
  apply (prepBo_tells_iff (b := 0) rfl rfl hreply).mpr
  rintro remaining h
  cases h
  decide

/-- The BO is idle, so the whole timeout remains, and that comes back negative. -/
theorem not_prepBo_tells :
    (WaitReply.signalled 2305842994214).Possible
        (drmTimeoutAbsToJiffies 4000000 60000000000 foreverArgs.timeoutNs) ∧
      rocketIoctlPrepBo 4000000 60000000000 [(1, 0)] foreverArgs (.signalled 2305842994214) =
        -554443738 ∧
      ¬ (rocketIoctlPrepBo 4000000 60000000000 [(1, 0)] foreverArgs
            (.signalled 2305842994214) < 0 ↔
          ∀ remaining, WaitReply.signalled 2305842994214 ≠ .signalled remaining) := by
  have hret : rocketIoctlPrepBo 4000000 60000000000 [(1, 0)] foreverArgs
      (.signalled 2305842994214) = -554443738 := by decide
  refine ⟨by decide, hret, fun h => ?_⟩
  rw [hret] at h
  exact h.mp (by decide) 2305842994214 rfl

end RocketNpu.Drm
