import Mathlib.Order.Nat
import RocketNpu.Devfreq.State
import RocketNpu.Lib.LockOrder

namespace RocketNpu.Devfreq
open LockOrder Runs

/-- What the devfreq paths wait for: `rocket_df.lock`, a suspend or resume of a device that is
in progress, the genpd lock of a domain, and `rocket_df.rate_lock`. -/
inductive Lock where
  | df
  | transition (d : ℕ)
  | genpd (dom : ℕ)
  | rate
deriving DecidableEq, Repr

/-- The order in which they nest. -/
def Lock.rank : Lock → ℕ
  | .df => 0
  | .transition _ => 1
  | .genpd _ => 2
  | .rate => 3

namespace Locks

/-- `rocket_df_notify`: an orphan block and the actions after the switch take nothing. -/
def rocketDfNotify : Code Lock := .alt .skip (.locked .rate .skip)

/-- `genpd_power_on` or `genpd_power_off`, whose notifier chain may be called back when a
block objects. -/
def switchDomain (dom : ℕ) : Code Lock := .locked (.genpd dom) (.loop rocketDfNotify)

/-- `rocket_devfreq_suspend` only sets the clock. -/
def rocketDevfreqSuspend : Code Lock := .skip

/-- The domain of each device, and `max_cores`. -/
structure Board where
  domain : ℕ → ℕ
  maxCores : ℕ

variable (b : Board)

/-- The driver callback may refuse; the domain is switched after it. -/
def runtimeSuspend (d : ℕ) : Code Lock :=
  .locked (.transition d) (.seq rocketDevfreqSuspend (.alt .skip (switchDomain (b.domain d))))

/-- Whoever comes second finds the device up. The driver callback comes after the switch, and
when it fails the domain is switched off again. -/
def runtimeResume (d : ℕ) : Code Lock :=
  .locked (.transition d) (.alt .skip
    (.seq (switchDomain (b.domain d)) (.alt .skip (switchDomain (b.domain d)))))

/-- A device that is up is not waited for. -/
def pmRuntimeResumeAndGet (d : ℕ) : Code Lock := .alt .skip (runtimeResume b d)

/-- `rocket_devfreq_hold_all` for the last `k` slots; a slot may be free, and holds any
device otherwise. Giving references back takes nothing. -/
def holdLast : ℕ → Code Lock
  | 0 => .skip
  | k + 1 => .alt (holdLast k)
      (.seq (.any (pmRuntimeResumeAndGet b)) (.alt .skip (holdLast k)))

/-- `rocket_devfreq_target`, with its exits without an OPP, before the references are taken
and when they cannot be. -/
def rocketDevfreqTarget : Code Lock :=
  .alt .skip (.locked .df (.alt .skip
    (.seq (holdLast b b.maxCores) (.alt .skip (.locked .rate .skip)))))

def rocketDevfreqGetDevStatus : Code Lock := .locked .df .skip

def rocketDevfreqGetCurFreq : Code Lock := .locked .df .skip

/-- `dev_pm_genpd_add_notifier` and `dev_pm_genpd_remove_notifier`. -/
def genpdNotifier (d : ℕ) : Code Lock := .locked (.genpd (b.domain d)) .skip

/-- Rounds of a loop over slots, each of which may be passed over. -/
def eachSlot (p : Code Lock) : ℕ → Code Lock
  | 0 => .skip
  | k + 1 => .seq (.alt .skip p) (eachSlot p k)

def rocketDfArmNotifiers : Code Lock :=
  eachSlot (.any (genpdNotifier b)) (min b.maxCores rocketDfMaxNb)

def rocketDfDisarmNotifiers : Code Lock := eachSlot (.any (genpdNotifier b)) rocketDfMaxNb

def rocketDevfreqCoreRemoved (d : ℕ) : Code Lock :=
  .alt .skip (.seq (.locked .df (.alt .skip (.locked .rate .skip)))
    (.alt .skip (genpdNotifier b d)))

def rocketDevfreqFini : Code Lock :=
  .alt .skip (.seq (.locked .df .skip) (rocketDfDisarmNotifiers b))

def rocketDevfreqCoreAdded : Code Lock := .alt .skip (rocketDfArmNotifiers b)

/-- `rocket_devfreq_init` leaves early, fails to add the device, or registers. -/
def rocketDevfreqInit (d : ℕ) : Code Lock :=
  .alt .skip (.seq (pmRuntimeResumeAndGet b d) (.alt .skip (.seq (.locked .df .skip)
    (.alt (.locked .df .skip) (rocketDfArmNotifiers b)))))

/-- The calls that threads make, on any device. -/
inductive Call : Code Lock → Prop where
  | target : Call (rocketDevfreqTarget b)
  | getDevStatus : Call rocketDevfreqGetDevStatus
  | getCurFreq : Call rocketDevfreqGetCurFreq
  | suspend (d : ℕ) : Call (runtimeSuspend b d)
  | resume (d : ℕ) : Call (pmRuntimeResumeAndGet b d)
  | coreRemoved (d : ℕ) : Call (rocketDevfreqCoreRemoved b d)
  | fini : Call (rocketDevfreqFini b)
  | coreAdded : Call (rocketDevfreqCoreAdded b)
  | init (d : ℕ) : Call (rocketDevfreqInit b d)

variable {b : Board} {held : List Lock}

theorem rank_lt_of_cons {r : Lock} {i k : ℕ} (hh : ∀ h ∈ held, h.rank < i) (hr : r.rank < k)
    (hik : i ≤ k) : ∀ h ∈ r :: held, h.rank < k := by
  intro h hmem
  rcases List.mem_cons.mp hmem with rfl | hmem
  · exact hr
  · exact (hh h hmem).trans_le hik

theorem switchDomain_keeps (hh : ∀ h ∈ held, h.rank < 2) (dom : ℕ) :
    Keeps Lock.rank held (switchDomain dom) := by
  apply Keeps.locked hh
  apply Keeps.loop
  apply Keeps.opt
  apply Keeps.locked _ Keeps.skip
  exact rank_lt_of_cons hh (by simp [Lock.rank]) (by decide)

/-- A transition takes the genpd lock and `rate_lock`, so it is never waited for under them. -/
theorem runtimeSuspend_keeps (hh : ∀ h ∈ held, h.rank < 1) (d : ℕ) :
    Keeps Lock.rank held (runtimeSuspend b d) := by
  have hswitch : ∀ h ∈ Lock.transition d :: held, h.rank < 2 :=
    rank_lt_of_cons hh (by simp [Lock.rank]) (by decide)
  apply Keeps.locked hh
  apply Keeps.seq Keeps.skip
  apply Keeps.opt
  exact switchDomain_keeps hswitch _

theorem pmRuntimeResumeAndGet_keeps (hh : ∀ h ∈ held, h.rank < 1) (d : ℕ) :
    Keeps Lock.rank held (pmRuntimeResumeAndGet b d) := by
  have hswitch : ∀ h ∈ Lock.transition d :: held, h.rank < 2 :=
    rank_lt_of_cons hh (by simp [Lock.rank]) (by decide)
  apply Keeps.opt
  apply Keeps.locked hh
  apply Keeps.opt
  apply Keeps.seq
  · exact switchDomain_keeps hswitch _
  · apply Keeps.opt
    exact switchDomain_keeps hswitch _

theorem holdLast_keeps (hh : ∀ h ∈ held, h.rank < 1) (k : ℕ) :
    Keeps Lock.rank held (holdLast b k) := by
  induction k with
  | zero => exact Keeps.skip
  | succ k ih =>
    apply Keeps.alt ih
    apply Keeps.seq
    · apply Keeps.any
      exact pmRuntimeResumeAndGet_keeps hh
    · exact Keeps.opt ih

theorem rateLock_keeps (hh : ∀ h ∈ held, h.rank < 3) :
    Keeps Lock.rank held (.locked .rate .skip) := Keeps.locked hh Keeps.skip

/-- `rocket_df.lock` is the first of all. -/
theorem dfLock_keeps {p : Code Lock} (hp : Keeps Lock.rank [.df] p) :
    Keeps Lock.rank [] (.locked .df p) := Keeps.locked (by simp) hp

theorem rocketDevfreqTarget_keeps : Keeps Lock.rank [] (rocketDevfreqTarget b) := by
  apply Keeps.opt
  apply dfLock_keeps
  apply Keeps.opt
  apply Keeps.seq
  · exact holdLast_keeps (by simp [Lock.rank]) _
  · apply Keeps.opt
    exact rateLock_keeps (by simp [Lock.rank])

theorem genpdNotifier_keeps (d : ℕ) : Keeps Lock.rank [] (genpdNotifier b d) :=
  Keeps.locked (by simp) Keeps.skip

theorem eachSlot_keeps {p : Code Lock} (hp : Keeps Lock.rank held p) (k : ℕ) :
    Keeps Lock.rank held (eachSlot p k) := by
  induction k with
  | zero => exact Keeps.skip
  | succ k ih => exact (Keeps.opt hp).seq ih

theorem rocketDfArmNotifiers_keeps : Keeps Lock.rank [] (rocketDfArmNotifiers b) :=
  eachSlot_keeps (Keeps.any genpdNotifier_keeps) _

theorem rocketDevfreqCoreRemoved_keeps (d : ℕ) :
    Keeps Lock.rank [] (rocketDevfreqCoreRemoved b d) := by
  apply Keeps.opt
  apply Keeps.seq
  · apply dfLock_keeps
    apply Keeps.opt
    exact rateLock_keeps (by simp [Lock.rank])
  · apply Keeps.opt
    exact genpdNotifier_keeps d

theorem rocketDevfreqFini_keeps : Keeps Lock.rank [] (rocketDevfreqFini b) := by
  apply Keeps.opt
  apply Keeps.seq
  · exact dfLock_keeps Keeps.skip
  · exact eachSlot_keeps (Keeps.any genpdNotifier_keeps) _

theorem rocketDevfreqInit_keeps (d : ℕ) : Keeps Lock.rank [] (rocketDevfreqInit b d) := by
  apply Keeps.opt
  apply Keeps.seq
  · exact pmRuntimeResumeAndGet_keeps (by simp) d
  · apply Keeps.opt
    apply Keeps.seq
    · exact dfLock_keeps Keeps.skip
    · apply Keeps.alt
      · exact dfLock_keeps Keeps.skip
      · exact rocketDfArmNotifiers_keeps

theorem Call.keeps {p : Code Lock} (h : Call b p) : Keeps Lock.rank [] p := by
  cases h with
  | target => exact rocketDevfreqTarget_keeps
  | getDevStatus => exact dfLock_keeps Keeps.skip
  | getCurFreq => exact dfLock_keeps Keeps.skip
  | suspend d => exact runtimeSuspend_keeps (by simp) d
  | resume d => exact pmRuntimeResumeAndGet_keeps (by simp) d
  | coreRemoved d => exact rocketDevfreqCoreRemoved_keeps d
  | fini => exact rocketDevfreqFini_keeps
  | coreAdded => exact Keeps.opt rocketDfArmNotifiers_keeps
  | init d => exact rocketDevfreqInit_keeps d

variable {T : Type*} [DecidableEq T] {s : T → Thread Lock}

/-- No thread waits, through any chain of threads, for itself. -/
theorem deadlockFree (h : Reachable Start (LockOrder.Step {p | Call b p}) s) (t : T) :
    ¬ Relation.TransGen (Waits s) t t :=
  not_transGen_waits (fun _ hp => Call.keeps hp) h t

/-- `rocket_devfreq_target` with one core, whose device is in transition. -/
theorem target_path : Path (rocketDevfreqTarget ⟨id, 1⟩)
    [.acquire .df, .acquire (.transition 0), .release (.transition 0), .release .df] := by
  have hwait : Path (pmRuntimeResumeAndGet ⟨id, 1⟩ 0)
      [.acquire (.transition 0), .release (.transition 0)] :=
    .right (.seq (.op _) (.seq (.left .skip) (.op _)))
  have hhold : Path (holdLast ⟨id, 1⟩ 1)
      [.acquire (.transition 0), .release (.transition 0)] :=
    .right (.seq (.any 0 hwait) (.left .skip))
  exact .right (.seq (.op _) (.seq (.right (.seq hhold (.left .skip))) (.op _)))

theorem suspend_path : Path (runtimeSuspend ⟨id, 1⟩ 0)
    [.acquire (.transition 0), .acquire (.genpd 0), .release (.genpd 0),
      .release (.transition 0)] := by
  have hswitch : Path (switchDomain 0) [.acquire (.genpd 0), .release (.genpd 0)] :=
    .seq (.op _) (.seq .done (.op _))
  exact .seq (.op _) (.seq (.seq .skip (.right hswitch)) (.op _))

/-- Thread 0 holds `rocket_df.lock` and waits for a suspend that thread 1 is in. -/
theorem deadlockFree_waiting :
    ∃ s : ℕ → Thread Lock, Waits s 0 1 ∧ ¬ Relation.TransGen (Waits s) 0 0 := by
  have h0 : Reachable Start (LockOrder.Step {p | Call ⟨id, 1⟩ p})
      (fun _ : ℕ => (⟨[], []⟩ : Thread Lock)) := .start rfl
  have h1 := h0.step (.call (t := 0) rfl .target target_path)
  have h2 := h1.step (.acquire (t := 0) rfl fun u => by
    by_cases hu : u = 0
    · simp [hu]
    · simp [hu])
  have h3 := h2.step (.call (t := 1) rfl (.suspend 0) suspend_path)
  have h4 := h3.step (.acquire (t := 1) rfl fun u => by
    by_cases hu : u = 0
    · simp [hu]
    · by_cases hu1 : u = 1
      · simp [hu1]
      · simp [hu, hu1])
  exact ⟨_, ⟨.transition 0, _, rfl, List.mem_cons_self⟩, deadlockFree h4 0⟩

end Locks
end RocketNpu.Devfreq
