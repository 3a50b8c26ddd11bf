import RocketNpu.Devfreq.SafeRate
import RocketNpu.Devfreq.Outcome
import RocketNpu.Devfreq.RemovalRace
import RocketNpu.Devfreq.TargetRace
import RocketNpu.Devfreq.VoltageGuard
import RocketNpu.Job.Completion
import RocketNpu.Job.Power
import RocketNpu.Job.Stepping
import RocketNpu.Drm.SubmitAll
import RocketNpu.Drm.DomainRuns
import RocketNpu.Drm.Lifetime
import RocketNpu.Busy.Conserved
import RocketNpu.Busy.Interleaved
import RocketNpu.Busy.Slots
import RocketNpu.Devfreq.Locks
import RocketNpu.Fence.Acyclic
import RocketNpu.Fence.Missed
import RocketNpu.Fence.Serial
import RocketNpu.Drm.PrepBo
import RocketNpu.Drm.Stride
import RocketNpu.Drm.AddressRuns
import RocketNpu.Job.Registers
import RocketNpu.Job.Group
import RocketNpu.Bench.Exact
import RocketNpu.Driver.Locks
import RocketNpu.Job.Timeline
import RocketNpu.Job.Recovery
import RocketNpu.Job.Programs
import RocketNpu.Bind.Resources
import RocketNpu.Drm.OpenClose
import RocketNpu.Drm.Reclaim
import RocketNpu.Drm.Mapped
import RocketNpu.Drm.Entities
import RocketNpu.Devfreq.Shutdown
import RocketNpu.Devfreq.Handles
import RocketNpu.Boot.FastBoot
