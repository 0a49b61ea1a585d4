import Mathlib.Algebra.Order.Ring.Int

/-!
# Bounded waits

The device manager waits for a host process to attach, and a client for the node of
a service to appear. Both look, sleep and look again until they have found what they
wait for or a counter has run out, and then tell the two apart by the counter. The
last look happens when the counter has already run out.

What the looks find is an argument, by the number of the look.

## Main results

* `truthful_iff`: the functions are right except at the last moment
-/

namespace Hdf.Core.BoundedWait

/-- The status codes that the two functions return. -/
inductive WaitStatus where
  | success | failure | timeout | noDevice | noDeviceService
  deriving DecidableEq, Repr

/-- How a loop has ended: the outcome of the last look, the counter and the number of looks. -/
structure LoopEnd where
  found : Bool
  waitCount : ℕ
  probes : ℕ
  deriving DecidableEq, Repr

/-- The loop that looks, and sleeps while the counter is positive. -/
def waitLoop (probe : ℕ → Bool) : ℕ → ℕ → LoopEnd
  | 0, probes => ⟨probe probes, 0, probes + 1⟩
  | waitCount + 1, probes =>
    if probe probes then ⟨true, waitCount + 1, probes + 1⟩
    else waitLoop probe waitCount (probes + 1)

/-- What a function returns, and how often it has looked. -/
structure Waited where
  status : WaitStatus
  probes : ℕ
  deriving DecidableEq, Repr

/-! ### The functions -/

/-- `WAIT_HOST_SLEEP_CNT`. -/
def waitHostSleepCnt : ℕ := 300

/-- `LOAD_IOSERVICE_WAIT_COUNT`. -/
def loadIoserviceWaitCount : ℕ := 20

/-- `HDF_FAILURE`, as a process id. -/
def hdfFailure : Int32 := -1

/-- The part of a `struct DevHostServiceClnt` that is changed. -/
structure DevHostServiceClnt where
  hostPid : Int32
  stopFlag : Bool
  deriving DecidableEq, Repr

/-- `DevmgrServiceStartHostProcess`, given what `StartDeviceHost` returns if there is such an
installer, and whether the looks find the host attached. -/
def devmgrServiceStartHostProcess (startDeviceHost : Option Int32) (sync : Bool)
    (attached : ℕ → Bool) (hostClnt : DevHostServiceClnt) : Waited × DevHostServiceClnt :=
  match startDeviceHost with
  | none => (⟨.failure, 0⟩, hostClnt)
  | some hostPid =>
    if hostPid = hdfFailure then (⟨.failure, 0⟩, { hostClnt with hostPid })
    else
      let hostClnt := { hostClnt with hostPid, stopFlag := false }
      if !sync then (⟨.success, 0⟩, hostClnt)
      else
        let loop := waitLoop attached waitHostSleepCnt 0
        (⟨if loop.waitCount = 0 then .timeout else .success, loop.probes⟩, hostClnt)

/-- `TrytoLoadIoService`, given whether the driver is loaded and whether the looks can resolve
the path. The test that ends the loop with nothing found decrements the counter as well. -/
def trytoLoadIoService (loaded : Bool) (resolves : ℕ → Bool) : Waited :=
  if !loaded then ⟨.noDevice, 0⟩
  else
    let loop := waitLoop resolves loadIoserviceWaitCount 0
    let waitCount : ℤ := if loop.found then loop.waitCount else loop.waitCount - 1
    ⟨if waitCount ≤ 0 then .noDeviceService else .success, loop.probes⟩

/-- The function returns success exactly when one of its looks has found the condition true. -/
def Truthful (probe : ℕ → Bool) (waited : Waited) : Prop :=
  waited.status = .success ↔ ∃ k < waited.probes, probe k = true

/-- The condition holds at the last look and at none before. -/
def LastMoment (count : ℕ) (probe : ℕ → Bool) : Prop :=
  probe count = true ∧ ∀ k < count, probe k = false

section

variable {probe : ℕ → Bool} {count : ℕ}

/-! ### The loop -/

/-- How a loop that begins with some look ends. -/
structure Ends (probe : ℕ → Bool) (count start : ℕ) (loop : LoopEnd) : Prop where
  looked : start < loop.probes
  total : loop.waitCount + loop.probes = count + start + 1
  last : loop.found = probe (loop.probes - 1)
  before : ∀ k, start ≤ k → k < loop.probes - 1 → probe k = false
  exhausted : loop.found = false → loop.waitCount = 0

theorem waitLoop_spec (probe : ℕ → Bool) (count start : ℕ) :
    Ends probe count start (waitLoop probe count start) := by
  induction count generalizing start with
  | zero => exact ⟨by simp [waitLoop], by simp [waitLoop], rfl, fun k _ _ => by
      simp only [waitLoop] at *; omega, fun _ => rfl⟩
  | succ count ih =>
    rw [waitLoop]
    split
    case isTrue found =>
      refine ⟨Nat.lt_succ_self _, by dsimp only; omega, ?_, fun k _ _ => ?_, by simp⟩
      · rw [Nat.add_sub_cancel, found]
      · dsimp only at *
        omega
    case isFalse missing =>
      obtain ⟨looked, total, last, before, exhausted⟩ := ih (start + 1)
      refine ⟨by omega, by omega, last, fun k from_ until_ => ?_, exhausted⟩
      by_cases first : k = start
      · rw [first]
        simpa using missing
      · exact before k (by omega) until_

/-- What the counter says is true unless the last look is the one that finds. -/
theorem Ends.tells_iff {loop : LoopEnd} (ends : Ends probe count 0 loop) :
    (0 < loop.waitCount ↔ ∃ k < loop.probes, probe k = true) ↔ ¬ LastMoment count probe := by
  obtain ⟨looked, total, last, before, exhausted⟩ := ends
  constructor
  · rintro truthful ⟨finds, vain⟩
    -- every look was made, and the last one has found it
    have whole : loop.probes = count + 1 := by
      by_contra less
      have missing : loop.found = false := last.trans (vain _ (by omega))
      have := exhausted missing
      omega
    have := truthful.mpr ⟨count, by omega, finds⟩
    omega
  · intro earlier
    constructor
    · intro positive
      have found : loop.found = true := by
        by_contra missing
        have := exhausted (by simpa using missing)
        omega
      exact ⟨loop.probes - 1, by omega, last.symm.trans found⟩
    · rintro ⟨k, made, finds⟩
      by_contra none_left
      have whole : loop.probes = count + 1 := by omega
      have latest : k = count := by
        by_contra other
        have vain := before k (Nat.zero_le k) (by omega)
        rw [finds] at vain
        cases vain
      subst latest
      exact earlier ⟨finds, fun i less => before i (Nat.zero_le i) (by omega)⟩

/-- The decrement of the test that ends the loop in vain makes no difference. -/
theorem Ends.counter_le_zero {start : ℕ} {loop : LoopEnd} (ends : Ends probe count start loop) :
    (if loop.found then (loop.waitCount : ℤ) else loop.waitCount - 1) ≤ 0 ↔
      ¬ 0 < loop.waitCount := by
  split
  case isTrue => omega
  case isFalse missing =>
    have := ends.exhausted (by simpa using missing)
    omega

/-! ### The functions -/

/-- A host that was started is reported as attached unless it attaches at the last moment. -/
theorem startHostProcess_truthful (startDeviceHost : Option Int32) (attached : ℕ → Bool)
    (hostClnt : DevHostServiceClnt) :
    Truthful attached
        (devmgrServiceStartHostProcess startDeviceHost true attached hostClnt).1 ↔
      ¬ (∃ hostPid, startDeviceHost = some hostPid ∧ hostPid ≠ hdfFailure ∧
        LastMoment waitHostSleepCnt attached) := by
  have unstarted : Truthful attached ⟨.failure, 0⟩ := by simp [Truthful]
  unfold devmgrServiceStartHostProcess
  cases startDeviceHost with
  | none => simpa using unstarted
  | some hostPid =>
    dsimp only
    by_cases fails : hostPid = hdfFailure
    · rw [if_pos fails]
      simpa [fails] using unstarted
    · rw [if_neg fails, if_neg (by simp)]
      have ends := (waitLoop_spec attached waitHostSleepCnt 0).tells_iff
      have started : (∃ pid, some hostPid = some pid ∧ pid ≠ hdfFailure ∧
          LastMoment waitHostSleepCnt attached) ↔ LastMoment waitHostSleepCnt attached :=
        ⟨fun ⟨_, _, _, late⟩ => late, fun late => ⟨hostPid, rfl, fails, late⟩⟩
      rw [started, ← ends, Truthful]
      refine iff_congr ?_ Iff.rfl
      dsimp only
      split <;> simp <;> omega

theorem trytoLoadIoService_truthful (loaded : Bool) (resolves : ℕ → Bool) :
    Truthful resolves (trytoLoadIoService loaded resolves) ↔
      ¬ (loaded = true ∧ LastMoment loadIoserviceWaitCount resolves) := by
  unfold trytoLoadIoService
  cases loaded with
  | false => simp [Truthful]
  | true =>
    have spec := waitLoop_spec resolves loadIoserviceWaitCount 0
    rw [if_neg (by simp), eq_self_iff_true, true_and, ← spec.tells_iff, Truthful]
    refine iff_congr ?_ Iff.rfl
    dsimp only
    rw [if_congr spec.counter_le_zero rfl rfl]
    split <;> simp <;> omega

/-- Both functions report the truth exactly when the condition does not come true
just for the last look. -/
theorem truthful_iff (startDeviceHost : Option Int32) (loaded : Bool)
    (attached resolves : ℕ → Bool) (hostClnt : DevHostServiceClnt) :
    (Truthful attached
          (devmgrServiceStartHostProcess startDeviceHost true attached hostClnt).1 ↔
        ¬ (∃ hostPid, startDeviceHost = some hostPid ∧ hostPid ≠ hdfFailure ∧
          LastMoment waitHostSleepCnt attached)) ∧
      (Truthful resolves (trytoLoadIoService loaded resolves) ↔
        ¬ (loaded = true ∧ LastMoment loadIoserviceWaitCount resolves)) :=
  ⟨startHostProcess_truthful startDeviceHost attached hostClnt,
    trytoLoadIoService_truthful loaded resolves⟩

end

/-! ### Examples -/

/-- A condition that comes true at some look and stays so. -/
def fromLook (k : ℕ) : ℕ → Bool := fun look => decide (k ≤ look)

/-- A host that attaches during the last sleep, and a node that appears during the last sleep. -/
theorem lastMoment_misreported :
    (devmgrServiceStartHostProcess (some 7) true (fromLook 300) ⟨-1, true⟩).1 =
        ⟨.timeout, 301⟩ ∧ fromLook 300 300 = true ∧
      trytoLoadIoService true (fromLook 20) = ⟨.noDeviceService, 21⟩ ∧ fromLook 20 20 = true ∧
      ¬ Truthful (fromLook 300)
        (devmgrServiceStartHostProcess (some 7) true (fromLook 300) ⟨-1, true⟩).1 ∧
      ¬ Truthful (fromLook 20) (trytoLoadIoService true (fromLook 20)) := by
  have late : (devmgrServiceStartHostProcess (some 7) true (fromLook 300) ⟨-1, true⟩).1 =
      ⟨.timeout, 301⟩ := by decide +kernel
  have late' : trytoLoadIoService true (fromLook 20) = ⟨.noDeviceService, 21⟩ := by decide +kernel
  refine ⟨late, by decide, late', by decide, fun truthful => ?_, fun truthful => ?_⟩
  · rw [late] at truthful
    exact absurd (truthful.mpr ⟨300, by decide, by decide⟩) (by decide)
  · rw [late'] at truthful
    exact absurd (truthful.mpr ⟨20, by decide, by decide⟩) (by decide)

end Hdf.Core.BoundedWait
