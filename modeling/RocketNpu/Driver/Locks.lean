import RocketNpu.Devfreq.Locks
import RocketNpu.Lib.WaitDie

namespace RocketNpu.Driver
open LockOrder (Code Path)
open Runs WaitDie

/-- What the driver's paths wait for, per device, slot, file or BO: `device_lock`, the IRQ
thread and the scheduler's work items while they run, the devfreq locks, `job_lock`, the mutex of
`iommu_group`, `rocket_df_busy_lock`, `fence_lock`, `mm_lock`, a BO's reservation and
`sched_lock`. -/
inductive Lock where
  | device (d : ℕ)
  | irqThread (core : ℕ)
  | timeoutWork (core : ℕ)
  | runWork (core : ℕ)
  | freeWork (core : ℕ)
  | devfreq (l : Devfreq.Lock)
  | job (core : ℕ)
  | group (core : ℕ)
  | busy
  | fence (core : ℕ)
  | mm (file : ℕ)
  | resv (bo : ℕ)
  | sched
deriving DecidableEq, Repr

/-- The order in which they nest. -/
def Lock.rank : Lock → ℕ
  | .device _ => 0
  | .irqThread _ | .timeoutWork _ => 1
  | .runWork _ | .freeWork _ => 2
  | .devfreq l => 3 + l.rank
  | .job _ => 7
  | .group _ => 8
  | .busy | .fence _ => 9
  | .mm _ | .resv _ => 10
  | .sched => 11

def Lock.ww : Lock → Bool
  | .resv _ => true
  | _ => false

def discipline : Discipline Lock ℕ where
  rank := Lock.rank
  ww := Lock.ww
  ww_rank a b ha hb := by
    cases a <;> simp [Lock.ww] at ha
    cases b <;> simp [Lock.ww] at hb
    rfl

namespace Locks

/-- Waits until nobody holds `r`. -/
def waitFor (r : Lock) : Code Lock := .locked r .skip

/-- `rocket_devfreq_record_busy` and `rocket_devfreq_record_idle`. -/
def rocketDevfreqRecord : Code Lock := .alt .skip (waitFor .busy)

def rocketGemBoFree (file bo : ℕ) : Code Lock := .seq (waitFor (.mm file)) (waitFor (.resv bo))

/-- References to BOs are dropped, some of them the last. -/
def dropBos : Code Lock := .loop (.any fun file => .any fun bo => rocketGemBoFree file bo)

/-- `rocket_job_put`, with `rocket_job_cleanup` for the last reference. -/
def rocketJobPut : Code Lock := .alt .skip dropBos

variable (b : Devfreq.Locks.Board)

def pmRuntimeGetSync (d : ℕ) : Code Lock :=
  embed .devfreq (Devfreq.Locks.pmRuntimeResumeAndGet b d)

def runtimeSuspend (d : ℕ) : Code Lock := embed .devfreq (Devfreq.Locks.runtimeSuspend b d)

/-- The scheduler's run work calls `rocket_job_run`, with its exits without anything to run,
when the core cannot be woken and when the group cannot be attached. -/
def rocketJobRun (core d : ℕ) : Code Lock :=
  .locked (.runWork core) (.alt .skip (.seq (pmRuntimeGetSync b d)
    (.alt .skip (.seq (waitFor (.group core))
      (.alt .skip (.locked (.job core) rocketDevfreqRecord))))))

/-- `rocket_job_irq_handler_thread`: nothing is in flight, a next task is submitted, or the job
is finished. -/
def rocketJobIrqHandlerThread (core : ℕ) : Code Lock :=
  .locked (.irqThread core) (.locked (.job core) (.alt .skip
    (.seq (waitFor (.group core)) (.seq (waitFor (.fence core)) rocketDevfreqRecord))))

/-- The scheduler's free work calls `rocket_job_free`. -/
def rocketJobFree (core : ℕ) : Code Lock := .locked (.freeWork core) rocketJobPut

/-- `drm_sched_stop` waits for both works, and frees the jobs that are over. -/
def drmSchedStop (core : ℕ) : Code Lock :=
  .seq (waitFor (.runWork core)) (.seq (waitFor (.freeWork core)) (.loop rocketJobPut))

/-- The timeout work calls `rocket_job_timedout`, and frees the job it was for. -/
def rocketJobTimedout (core : ℕ) : Code Lock :=
  .locked (.timeoutWork core) (.alt .skip (.seq (drmSchedStop core)
    (.seq (.locked (.job core) (.seq (waitFor (.group core)) rocketDevfreqRecord))
      rocketJobPut)))

/-- `drm_sched_fini` waits for the works, and `destroy_workqueue` for what is queued there. -/
def rocketJobFini (core : ℕ) : Code Lock :=
  .seq (waitFor (.runWork core)) (.seq (waitFor (.freeWork core)) (waitFor (.timeoutWork core)))

/-- Without autosuspend the core may be suspended at once; `pm_runtime_disable` waits for a
transition in progress. -/
def rocketCoreFini (core d : ℕ) : Code Lock :=
  .seq (.alt .skip (runtimeSuspend b d))
    (.seq (.alt .skip (waitFor (.devfreq (.transition d)))) (rocketJobFini core))

def rocketCoreInit (core d : ℕ) : Code Lock :=
  .alt .skip (.seq (pmRuntimeGetSync b d) (.alt .skip (rocketCoreFini b core d)))

/-- `rocket_probe`. After a failure the device's resources are released, which waits for the IRQ
thread if the interrupt was requested. -/
def rocketProbe (core d : ℕ) : Code Lock :=
  .locked (.device d) (.seq (rocketCoreInit b core d)
    (.alt (.alt .skip (waitFor (.irqThread core)))
      (.alt (embed .devfreq (Devfreq.Locks.rocketDevfreqInit b d))
        (embed .devfreq (Devfreq.Locks.rocketDevfreqCoreAdded b)))))

/-- `rocket_remove`, and the release of the device's resources, which waits for the IRQ
thread. -/
def rocketRemove (core d : ℕ) : Code Lock :=
  .locked (.device d) (.alt .skip
    (.seq (embed .devfreq (Devfreq.Locks.rocketDevfreqCoreRemoved b d))
      (.seq (embed .devfreq (Devfreq.Locks.rocketDevfreqFini b))
        (.seq (rocketCoreFini b core d) (waitFor (.irqThread core))))))

/-- `rocket_job_push` on the BOs whose reservations `drm_gem_lock_reservations` gets. -/
def rocketJobPush (bos : List ℕ) : Code Lock :=
  .seq (straight ((bos.map Lock.resv).map .acquire))
    (.seq (waitFor .sched) (straight ((bos.map Lock.resv).map .release)))

/-- A push that is interrupted, or given a BO twice, after it got the reservations of `bos`. -/
def rocketJobPushFailed (bos : List ℕ) : Code Lock :=
  .seq (straight ((bos.map Lock.resv).map .acquire))
    (.seq .skip (straight ((bos.map Lock.resv).map .release)))

/-- `rocket_ioctl_create_bo` on a new BO, with its exits without a handle, without pages and
without a mapping. -/
def rocketIoctlCreateBo (file bo : ℕ) : Code Lock :=
  .alt (.alt .skip (rocketGemBoFree file bo))
    (.seq (waitFor (.resv bo))
      (.alt (.alt .skip (waitFor (.resv bo)))
        (.seq (waitFor (.mm file))
          (.alt .skip (.seq (waitFor (.mm file)) (waitFor (.resv bo)))))))

/-- `rocket_ioctl_prep_bo`, and `rocket_ioctl_fini_bo`: no lock is taken, but the reference that
is dropped in the end may be the last. The wait for the fences of the BO is one for the hardware,
or for the time that the user gave, and is not counted here. -/
def rocketIoctlPrepBo (file bo : ℕ) : Code Lock := .alt .skip (rocketGemBoFree file bo)

/-- `rocket_postclose`: `drm_sched_entity_destroy` waits for a run work that is at one of the
file's jobs. Before that it waits for the queue of the file to drain, which ends with the
hardware too and is not counted here. -/
def rocketPostclose : Code Lock := .loop (.any fun core => waitFor (.runWork core))

/-- The calls that threads make; the flag says that the call takes a ticket for reservations.
What frees BOs outside a call here is a handle that is closed, or the killed jobs of a closed
file. -/
inductive Call : Bool × Code Lock → Prop where
  | run (core d : ℕ) : Call (false, rocketJobRun b core d)
  | irqThread (core : ℕ) : Call (false, rocketJobIrqHandlerThread core)
  | free (core : ℕ) : Call (false, rocketJobFree core)
  | timedout (core : ℕ) : Call (false, rocketJobTimedout core)
  | probe (core d : ℕ) : Call (false, rocketProbe b core d)
  | remove (core d : ℕ) : Call (false, rocketRemove b core d)
  | push {bos : List ℕ} : bos.Nodup → Call (true, rocketJobPush bos)
  | pushFailed {bos : List ℕ} : bos.Nodup → Call (true, rocketJobPushFailed bos)
  | createBo (file bo : ℕ) : Call (false, rocketIoctlCreateBo file bo)
  | prepBo (file bo : ℕ) : Call (false, rocketIoctlPrepBo file bo)
  | put : Call (false, dropBos)
  | postclose : Call (false, rocketPostclose)
  | getDevStatus :
      Call (false, .seq (embed .devfreq Devfreq.Locks.rocketDevfreqGetDevStatus) (waitFor .busy))
  | devfreq {p : Code Devfreq.Lock} : Devfreq.Locks.Call b p → Call (false, embed .devfreq p)

variable {b} {ticketed : Bool} {held : Finset Lock} {r : Lock} {p : Code Lock}

theorem locked_keeps (hh : ∀ h ∈ held, h.rank < r.rank)
    (hp : Keeps discipline ticketed (insert r held) p) :
    Keeps discipline ticketed held (.locked r p) :=
  Keeps.locked (fun h hmem => .inl (hh h hmem)) hp

theorem waitFor_keeps (hh : ∀ h ∈ held, h.rank < r.rank) :
    Keeps discipline ticketed held (waitFor r) := locked_keeps hh Keeps.skip

theorem record_keeps (hh : ∀ h ∈ held, h.rank < 9) :
    Keeps discipline ticketed held rocketDevfreqRecord := Keeps.opt (waitFor_keeps hh)

theorem dropBos_keeps (hh : ∀ h ∈ held, h.rank < 10) : Keeps discipline ticketed held dropBos := by
  apply Keeps.loop
  apply Keeps.any
  intro file
  apply Keeps.any
  intro bo
  exact Keeps.seq (waitFor_keeps hh) (waitFor_keeps hh)

theorem jobPut_keeps (hh : ∀ h ∈ held, h.rank < 10) :
    Keeps discipline ticketed held rocketJobPut := Keeps.opt (dropBos_keeps hh)

/-- The devfreq locks keep their own order above whatever comes before them. -/
theorem devfreq_keeps {q : Code Devfreq.Lock} (hq : LockOrder.Keeps Devfreq.Lock.rank [] q)
    (hh : ∀ h ∈ held, h.rank < 3) : Keeps discipline ticketed held (embed .devfreq q) := by
  refine Keeps.embed hq (fun _ _ h => Lock.devfreq.inj h) ?_ ?_
  · intro x y hlt
    show 3 + x.rank < 3 + y.rank
    omega
  · intro h hmem x
    have := hh h hmem
    show h.rank < 3 + x.rank
    omega

theorem jobRun_keeps (core d : ℕ) : Keeps discipline ticketed ∅ (rocketJobRun b core d) := by
  apply locked_keeps (by simp)
  apply Keeps.opt
  apply Keeps.seq
  · exact devfreq_keeps (Devfreq.Locks.Call.resume d).keeps (by simp [Lock.rank])
  · apply Keeps.opt
    apply Keeps.seq (waitFor_keeps (by simp [Lock.rank]))
    apply Keeps.opt
    apply locked_keeps (by simp [Lock.rank])
    exact record_keeps (by simp [Lock.rank])

theorem jobIrqHandlerThread_keeps (core : ℕ) :
    Keeps discipline ticketed ∅ (rocketJobIrqHandlerThread core) := by
  apply locked_keeps (by simp)
  apply locked_keeps (by simp [Lock.rank])
  apply Keeps.opt
  apply Keeps.seq (waitFor_keeps (by simp [Lock.rank]))
  apply Keeps.seq (waitFor_keeps (by simp [Lock.rank]))
  exact record_keeps (by simp [Lock.rank])

theorem jobTimedout_keeps (core : ℕ) :
    Keeps discipline ticketed ∅ (rocketJobTimedout core) := by
  apply locked_keeps (by simp)
  apply Keeps.opt
  apply Keeps.seq
  · apply Keeps.seq (waitFor_keeps (by simp [Lock.rank]))
    apply Keeps.seq (waitFor_keeps (by simp [Lock.rank]))
    exact Keeps.loop (jobPut_keeps (by simp [Lock.rank]))
  · apply Keeps.seq
    · apply locked_keeps (by simp [Lock.rank])
      apply Keeps.seq (waitFor_keeps (by simp [Lock.rank]))
      exact record_keeps (by simp [Lock.rank])
    · exact jobPut_keeps (by simp [Lock.rank])

/-- Nothing but a device's lock is held when its core is taken down. -/
theorem coreFini_keeps (core d : ℕ) (hh : ∀ h ∈ held, h.rank < 1) :
    Keeps discipline ticketed held (rocketCoreFini b core d) := by
  have hlow {k : ℕ} (hk : 1 ≤ k) : ∀ h ∈ held, h.rank < k := fun h hmem => (hh h hmem).trans_le hk
  apply Keeps.seq
  · exact Keeps.opt (devfreq_keeps (Devfreq.Locks.Call.suspend d).keeps (hlow (by omega)))
  · apply Keeps.seq
    · apply Keeps.opt
      exact waitFor_keeps (hlow (Nat.le_add_right_of_le (by omega)))
    · apply Keeps.seq (waitFor_keeps (hlow (by simp [Lock.rank])))
      apply Keeps.seq (waitFor_keeps (hlow (by simp [Lock.rank])))
      exact waitFor_keeps (hlow (by simp [Lock.rank]))

theorem probe_keeps (core d : ℕ) : Keeps discipline ticketed ∅ (rocketProbe b core d) := by
  apply locked_keeps (by simp)
  apply Keeps.seq
  · apply Keeps.opt
    apply Keeps.seq
    · exact devfreq_keeps (Devfreq.Locks.Call.resume d).keeps (by simp [Lock.rank])
    · exact Keeps.opt (coreFini_keeps core d (by simp [Lock.rank]))
  · apply Keeps.alt
    · exact Keeps.opt (waitFor_keeps (by simp [Lock.rank]))
    · apply Keeps.alt
      · exact devfreq_keeps (Devfreq.Locks.Call.init d).keeps (by simp [Lock.rank])
      · exact devfreq_keeps Devfreq.Locks.Call.coreAdded.keeps (by simp [Lock.rank])

theorem remove_keeps (core d : ℕ) : Keeps discipline ticketed ∅ (rocketRemove b core d) := by
  apply locked_keeps (by simp)
  apply Keeps.opt
  apply Keeps.seq
  · exact devfreq_keeps (Devfreq.Locks.Call.coreRemoved d).keeps (by simp [Lock.rank])
  · apply Keeps.seq
    · exact devfreq_keeps Devfreq.Locks.Call.fini.keeps (by simp [Lock.rank])
    · apply Keeps.seq (coreFini_keeps core d (by simp [Lock.rank]))
      exact waitFor_keeps (by simp [Lock.rank])

/-- Reservations are taken with nothing held, and `sched_lock` is taken inside them. -/
theorem reservations_keeps {bos : List ℕ} (hbos : bos.Nodup)
    (hp : ∀ held : Finset Lock, (∀ h ∈ held, h.rank < 11) → Keeps discipline true held p) :
    Keeps discipline true ∅ (.seq (straight ((bos.map Lock.resv).map .acquire))
      (.seq p (straight ((bos.map Lock.resv).map .release)))) := by
  apply Keeps.lockedAll
  · exact hbos.map fun _ _ h => Lock.resv.inj h
  · intro r hr
    obtain ⟨bo, -, rfl⟩ := List.mem_map.mp hr
    rfl
  · simp
  · apply hp
    intro h hmem
    simp only [Finset.empty_union, List.mem_toFinset, List.mem_map] at hmem
    obtain ⟨bo, -, rfl⟩ := hmem
    simp [Lock.rank]

theorem createBo_keeps (file bo : ℕ) :
    Keeps discipline ticketed ∅ (rocketIoctlCreateBo file bo) := by
  have hwait : ∀ r, Keeps discipline ticketed ∅ (waitFor r) := fun r => waitFor_keeps (by simp)
  apply Keeps.alt
  · exact Keeps.opt ((hwait _).seq (hwait _))
  · apply Keeps.seq (hwait _)
    apply Keeps.alt (Keeps.opt (hwait _))
    exact (hwait _).seq (Keeps.opt ((hwait _).seq (hwait _)))

theorem Call.keeps {c : Bool × Code Lock} (h : Call b c) : Keeps discipline c.1 ∅ c.2 := by
  cases h with
  | run core d => exact jobRun_keeps core d
  | irqThread core => exact jobIrqHandlerThread_keeps core
  | free core => exact locked_keeps (by simp) (jobPut_keeps (by simp [Lock.rank]))
  | timedout core => exact jobTimedout_keeps core
  | probe core d => exact probe_keeps core d
  | remove core d => exact remove_keeps core d
  | push hbos => exact reservations_keeps hbos fun _ hh => waitFor_keeps hh
  | pushFailed hbos => exact reservations_keeps hbos fun _ _ => Keeps.skip
  | createBo file bo => exact createBo_keeps file bo
  | prepBo file bo =>
    exact Keeps.opt ((waitFor_keeps (by simp)).seq (waitFor_keeps (by simp)))
  | put => exact dropBos_keeps (by simp)
  | postclose => exact Keeps.loop (Keeps.any fun _ => waitFor_keeps (by simp))
  | getDevStatus =>
    apply Keeps.seq
    · exact devfreq_keeps (Devfreq.Locks.Call.getDevStatus (b := b)).keeps (by simp)
    · exact waitFor_keeps (by simp)
  | devfreq hp => exact devfreq_keeps hp.keeps (by simp)

variable {T : Type*} [Finite T] [DecidableEq T] {s : T → Thread Lock}

/-- No call waits for itself through other calls, and every unfinished call is, through those it
waits for, behind one that can go on. -/
theorem calls_goOn (h : Reachable Start (WaitDie.Step discipline {c | Call b c}) s) (t : T) :
    ¬ Relation.TransGen (Waits discipline s) t t ∧
      ((s t).todo ≠ [] → ∃ u s', Relation.ReflTransGen (Waits discipline s) t u ∧
        (s u).todo ≠ [] ∧ WaitDie.Step discipline {c | Call b c} s u s') :=
  ⟨not_transGen_waits (ok_of_reachable (fun _ hc => Call.keeps hc) h) t,
    exists_unblocked (fun _ hc => Call.keeps hc) h⟩

theorem push_path (x y : ℕ) : Path (rocketJobPush [x, y])
    [.acquire (.resv x), .acquire (.resv y), .acquire .sched, .release .sched,
      .release (.resv x), .release (.resv y)] :=
  .seq (.seq (.op _) (.seq (.op _) .skip)) (.seq (.seq (.op _) (.seq .skip (.op _)))
    (.seq (.op _) (.seq (.op _) .skip)))

/-- Two pushes take two reservations in opposite orders: the older one waits for the younger. -/
theorem calls_goOn_pushes :
    ∃ s : Bool → Thread Lock, Waits discipline s false true ∧
      ∃ u s', Relation.ReflTransGen (Waits discipline s) false u ∧ (s u).todo ≠ [] ∧
        WaitDie.Step discipline {c | Call ⟨id, 1⟩ c} s u s' := by
  have h0 : Reachable Start (WaitDie.Step discipline {c | Call ⟨id, 1⟩ c})
      (fun _ : Bool => (⟨∅, [], none⟩ : Thread Lock)) := .start rfl
  have hpush (x y : ℕ) (hxy : [x, y].Nodup) : (true, rocketJobPush [x, y]) ∈ {c | Call ⟨id, 1⟩ c} :=
    .push hxy
  have h1 := h0.step (.call (t := false) rfl (hpush 0 1 (by decide)) (push_path 0 1)
    (k := some 1) rfl (by simp))
  have h2 := h1.step (.call (t := true) rfl (hpush 1 0 (by decide)) (push_path 1 0)
    (k := some 2) rfl (by
      rintro u k ⟨⟩
      cases u <;> simp))
  have h3 := h2.step (.acquire (t := false) rfl fun u => by cases u <;> simp)
  have h4 := h3.step (.acquire (t := true) rfl fun u => by cases u <;> simp)
  refine ⟨_, ⟨.resv 1, _, rfl, by simp, fun _ _ k hk => ⟨1, rfl, ?_⟩⟩,
    (calls_goOn h4 false).2 (by simp)⟩
  obtain rfl : 2 = k := by simpa using hk
  omega

end Locks
end RocketNpu.Driver
