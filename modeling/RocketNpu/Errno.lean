import Mathlib.Data.Nat.Notation

namespace RocketNpu

/-- The error codes the driver names; a callee may also hand up any other. -/
inductive Errno where
  | eperm | enoent | enxio | eagain | enomem | efault | ebusy | eexist | enodev | einval
  | other (code : ℕ)
deriving DecidableEq, Repr

end RocketNpu
