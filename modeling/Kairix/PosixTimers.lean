import Kairix.LabelledRun
import Kairix.SysError

/-!
# POSIX timers

`sys_timer_settime` arms a timer, and `check_posix_timers` lets every timer expire whose
deadline has come.  A periodic timer is moved on by the intervals that have passed, and
all but one of them are counted as overruns.
-/

namespace Kairix.PosixTimers

open LabelledRun

def u128Max : ℕ := 2 ^ 128 - 1

def i32Max : ℕ := 2 ^ 31 - 1

def saturatingAdd (first second : ℕ) : ℕ := min (first + second) u128Max

def saturatingMul (first second : ℕ) : ℕ := min (first * second) u128Max

structure TimeSpec where
  tvSec : ℤ
  tvNsec : ℤ

def timespecToNs (value : TimeSpec) : Except SysError ℕ :=
  if value.tvSec < 0 ∨ value.tvNsec < 0 ∨ 1000000000 ≤ value.tvNsec then .error .einval
  else .ok (saturatingAdd (saturatingMul value.tvSec.toNat 1000000000) value.tvNsec.toNat)

inductive PosixTimerTarget where
  | none
  | process (signo : ℤ)
  | thread (tid : ℕ) (signo : ℤ)

structure PosixTimer where
  target : PosixTimerTarget
  intervalNs : ℕ
  deadlineNs : Option ℕ
  overrun : ℕ

def timerAbstime : BitVec 32 := 1

namespace PosixTimer

variable (timer : PosixTimer) (now : ℕ)

/-- `clock` is what the clock of the timer reads. -/
def settime (flags : BitVec 32) (value interval : TimeSpec) (monotonicNow clock : ℕ) :
    Except SysError PosixTimer :=
  if flags &&& ~~~timerAbstime ≠ 0 then .error .einval
  else do
    let valueNs ← timespecToNs value
    let intervalNs ← timespecToNs interval
    let deadlineNs :=
      if valueNs = 0 then none
      else if flags &&& timerAbstime ≠ 0 then some (saturatingAdd monotonicNow (valueNs - clock))
      else some (saturatingAdd monotonicNow valueNs)
    return { timer with intervalNs := intervalNs, deadlineNs := deadlineNs, overrun := 0 }

def signal : Option (Option ℕ × ℤ) :=
  match timer.target with
  | .none => none
  | .process signo => some (none, signo)
  | .thread tid signo => some (some tid, signo)

/-- One round of the loop of `check_posix_timers`: the timer after it, and the signal sent. -/
def check : PosixTimer × Option (Option ℕ × ℤ) :=
  match timer.deadlineNs with
  | none => (timer, none)
  | some deadline =>
    if now < deadline then (timer, none)
    else if timer.intervalNs = 0 then ({ timer with deadlineNs := none }, timer.signal)
    else
      let periods := (now - deadline) / timer.intervalNs + 1
      ({ timer with
        overrun := min (periods - 1) i32Max
        deadlineNs := some (saturatingAdd deadline (saturatingMul periods timer.intervalNs)) },
        timer.signal)

def reported : ℕ :=
  if timer.deadlineNs.any (· ≤ now) = true then 1 + (timer.check now).1.overrun else 0

end PosixTimer

/-- A timer after some checks, with their times, the last one first, and the expirations
reported. -/
structure CheckConfig where
  timer : PosixTimer
  times : List ℕ
  count : ℕ

namespace CheckConfig

def next (config : CheckConfig) (now : ℕ) : Option CheckConfig :=
  some ⟨(config.timer.check now).1, now :: config.times, config.count + config.timer.reported now⟩

/-- The clock is below the limit of its type, and fewer than `2 ^ 31` periods pass between
two checks, or between the first deadline and the first check. -/
def Regular (first : ℕ) (config : CheckConfig) (now : ℕ) : Prop :=
  now + config.timer.intervalNs ≤ u128Max ∧ (0 < config.timer.intervalNs →
    now < config.times.headD first + 2 ^ 31 * config.timer.intervalNs)

/-- The deadlines which have passed at a check, by their index; a timer without an interval
has only one. -/
def passed (first interval : ℕ) (times : List ℕ) : Set ℕ :=
  {index | (interval = 0 → index = 0) ∧ ∃ now ∈ times, first + index * interval ≤ now}

structure Exact (first interval : ℕ) (config : CheckConfig) : Prop where
  scheduled : ∀ deadline ∈ config.timer.deadlineNs, ∃ index, deadline = first + index * interval
  later : ∀ deadline ∈ config.timer.deadlineNs, ∀ now ∈ config.times, now < deadline
  periodic : interval ≠ 0 → config.timer.deadlineNs ≠ none
  once : interval = 0 → (∃ now ∈ config.times, first ≤ now) →
    config.timer.deadlineNs = none ∧ config.count = 1
  counted : config.count = (passed first interval config.times).ncard

/-! ## Runs of checks -/

def Progress (first interval : ℕ) (s : CheckConfig) : Prop :=
  s.timer.intervalNs = interval ∧
    (s.count ≠ 0 → ∃ now ∈ s.times, first + (s.count - 1) * interval ≤ now) ∧
    match s.timer.deadlineNs with
    | none => interval = 0 ∧ s.count = 1
    | some deadline => deadline = first + s.count * interval ∧
      (∀ now ∈ s.times, now < deadline) ∧
      (interval = 0 → s.count = 0 ∧ s.timer.overrun = 0)

variable {first interval : ℕ} {config s : CheckConfig}

section

variable (hprogress : Progress first interval s)
include hprogress

theorem Progress.mem_passed (index : ℕ) :
    index ∈ passed first interval s.times ↔ index < s.count := by
  obtain ⟨-, hbehind, hnext⟩ := hprogress
  have hmul {low high : ℕ} (hle : low ≤ high) : low * interval ≤ high * interval :=
    Nat.mul_le_mul_right interval hle
  constructor
  · rintro ⟨hsingle, now, hmem, hle⟩
    cases hdeadline : s.timer.deadlineNs with
    | none =>
      simp only [hdeadline] at hnext
      have hzero := hsingle hnext.1
      omega
    | some deadline =>
      simp only [hdeadline] at hnext
      have hlt := hnext.2.1 now hmem
      by_contra hge
      have hle' := hmul (not_lt.mp hge)
      omega
  · intro hlt
    obtain ⟨now, hmem, hle⟩ := hbehind (by omega)
    have hle' := hmul (show index ≤ s.count - 1 by omega)
    refine ⟨fun hinterval => ?_, now, hmem, by omega⟩
    cases hdeadline : s.timer.deadlineNs <;> simp only [hdeadline] at hnext
    · omega
    · have hzero := hnext.2.2 hinterval
      omega

theorem Progress.exact : Exact first interval s := by
  have hcounted : s.count = (passed first interval s.times).ncard := by
    have hset : passed first interval s.times = Set.Iio s.count := Set.ext hprogress.mem_passed
    rw [hset, Set.ncard_eq_toFinset_card', Set.toFinset_Iio, Nat.card_Iio]
  obtain ⟨-, -, hnext⟩ := hprogress
  cases hdeadline : s.timer.deadlineNs with
  | none =>
    simp only [hdeadline] at hnext
    exact ⟨by simp [hdeadline], by simp [hdeadline], fun h => absurd hnext.1 h,
      fun _ _ => ⟨hdeadline, hnext.2⟩, hcounted⟩
  | some deadline =>
    simp only [hdeadline] at hnext
    obtain ⟨rfl, hahead, hsingle⟩ := hnext
    refine ⟨by simp [hdeadline], by simpa [hdeadline] using hahead, by simp [hdeadline],
      fun hinterval ⟨now, hmem, hle⟩ => ?_, hcounted⟩
    have hlt := hahead now hmem
    simp only [hinterval, Nat.mul_zero] at hlt
    omega

theorem Progress.check {now : ℕ} (hregular : s.Regular first now) : Progress first interval
    ⟨(s.timer.check now).1, now :: s.times, s.count + s.timer.reported now⟩ := by
  obtain ⟨rfl, hbehind, hnext⟩ := hprogress
  obtain ⟨hfar, hclose⟩ := hregular
  have hbehind' (hcount : s.count ≠ 0) :
      ∃ time ∈ now :: s.times, first + (s.count - 1) * s.timer.intervalNs ≤ time := by
    obtain ⟨time, hmem, hle⟩ := hbehind hcount
    exact ⟨time, List.mem_cons_of_mem _ hmem, hle⟩
  cases hdeadline : s.timer.deadlineNs with
  | none =>
    simp only [hdeadline] at hnext
    simp only [PosixTimer.reported, PosixTimer.check, hdeadline]
    exact ⟨rfl, hbehind', by simpa [hdeadline] using hnext⟩
  | some deadline =>
    simp only [hdeadline] at hnext
    obtain ⟨hd, hahead, hsingle⟩ := hnext
    rcases lt_or_ge now deadline with hlt | hge
    · simp only [PosixTimer.reported, PosixTimer.check, hdeadline, if_pos hlt, Option.any_some,
        hlt.not_ge, decide_false, Bool.false_eq_true, if_false]
      refine ⟨rfl, hbehind', ?_⟩
      simpa only [hdeadline] using ⟨hd, List.forall_mem_cons.mpr ⟨hlt, hahead⟩, hsingle⟩
    simp only [PosixTimer.reported, PosixTimer.check, hdeadline, hge.not_gt, hge, Option.any_some,
      decide_true, if_true, if_false]
    split_ifs with hinterval
    · obtain ⟨hcount, hoverrun⟩ := hsingle hinterval
      refine ⟨rfl, fun _ => ⟨now, List.mem_cons_self, ?_⟩, hinterval, by simp [hcount, hoverrun]⟩
      simp only [hcount, hinterval] at hd ⊢
      omega
    · have hpos : 0 < s.timer.intervalNs := Nat.pos_of_ne_zero hinterval
      set periods := (now - deadline) / s.timer.intervalNs
      have hlow : periods * s.timer.intervalNs ≤ now - deadline := Nat.div_mul_le_self _ _
      have hhigh : now - deadline < (periods + 1) * s.timer.intervalNs :=
        Nat.lt_mul_of_div_lt (Nat.lt_succ_self _) hpos
      have hsucc := add_one_mul periods s.timer.intervalNs
      have hsmall : periods ≤ i32Max := by
        rw [i32Max, Nat.le_sub_one_iff_lt (by simp), Nat.div_lt_iff_lt_mul hpos]
        have hnear := hclose hpos
        cases htimes : s.times with
        | nil =>
          have hcount : s.count = 0 := by_contra fun h => by simpa [htimes] using hbehind h
          simp only [htimes, hcount, List.headD_nil] at hnear hd
          omega
        | cons last rest =>
          have hlast := hahead last (by simp [htimes])
          simp only [htimes, List.headD_cons] at hnear
          omega
      have hadd : saturatingAdd deadline (saturatingMul (periods + 1) s.timer.intervalNs) =
          deadline + (periods + 1) * s.timer.intervalNs := by
        rw [saturatingMul, min_eq_left (by omega), saturatingAdd, min_eq_left (by omega)]
      rw [Nat.add_sub_cancel, min_eq_left hsmall, hadd]
      refine ⟨rfl, fun _ => ⟨now, List.mem_cons_self, ?_⟩, ?_, ?_, fun h => absurd h hinterval⟩
      · have hcount : s.count + (1 + periods) - 1 = s.count + periods := by
          rw [Nat.add_left_comm, Nat.add_sub_cancel_left]
        simp only [hcount, Nat.add_mul]
        omega
      · rw [hd]
        ring
      · refine List.forall_mem_cons.mpr ⟨by omega, fun time hmem => ?_⟩
        exact (hahead time hmem).trans_le (Nat.le_add_right _ _)

end

theorem timespecToNs_ok {value : TimeSpec} {valueNs : ℕ}
    (hvalue : timespecToNs value = .ok valueNs) :
    valueNs = 0 ↔ value.tvSec = 0 ∧ value.tvNsec = 0 := by
  rw [timespecToNs] at hvalue
  split_ifs at hvalue with hvalid
  cases hvalue
  simp only [saturatingAdd, saturatingMul, u128Max]
  omega

/-- What a call leaves: the period asked for, and a first deadline unless the value is zero. -/
structure Armed (flags : BitVec 32) (value period : TimeSpec) (monotonicNow clock : ℕ)
    (armed : PosixTimer) : Prop where
  interval : timespecToNs period = .ok armed.intervalNs
  disarmed : armed.deadlineNs = none ↔ value.tvSec = 0 ∧ value.tvNsec = 0
  first : ∀ first ∈ armed.deadlineNs, ∃ valueNs, timespecToNs value = .ok valueNs ∧
    first = saturatingAdd monotonicNow
      (if flags &&& timerAbstime ≠ 0 then valueNs - clock else valueNs)
  overrun : armed.overrun = 0

theorem armed_of_settime {timer armed : PosixTimer} {flags : BitVec 32} {value period : TimeSpec}
    {monotonicNow clock : ℕ}
    (hset : timer.settime flags value period monotonicNow clock = .ok armed) :
    Armed flags value period monotonicNow clock armed := by
  simp only [PosixTimer.settime] at hset
  split at hset
  · cases hset
  cases hvalue : timespecToNs value with
  | error error => simp [hvalue, bind, Except.bind] at hset
  | ok valueNs =>
    cases hperiod : timespecToNs period with
    | error error => simp [hvalue, hperiod, bind, Except.bind] at hset
    | ok intervalNs =>
      simp only [hvalue, hperiod, bind, Except.bind, pure, Except.pure, Except.ok.injEq] at hset
      subst hset
      have hzero := timespecToNs_ok hvalue
      refine ⟨hperiod, ?_, fun first hfirst => ⟨valueNs, hvalue, ?_⟩, rfl⟩
      · rw [← hzero]
        simp only
        split_ifs <;> simp_all
      · simp only at hfirst
        split_ifs at hfirst ⊢ <;> simp_all

theorem exact_of_reachable {timer armed : PosixTimer} {flags : BitVec 32} {value period : TimeSpec}
    {monotonicNow clock : ℕ}
    (hset : timer.settime flags value period monotonicNow clock = .ok armed) :
    Armed flags value period monotonicNow clock armed ∧ ∀ first ∈ armed.deadlineNs, ∀ config,
      Reachable next (Regular first) ⟨armed, [], 0⟩ config →
        Exact first armed.intervalNs config := by
  have harmed := armed_of_settime hset
  refine ⟨harmed, fun first hfirst config hreach => ?_⟩
  have hstart : Progress first armed.intervalNs ⟨armed, [], 0⟩ := by
    simp [Progress, Option.mem_def.mp hfirst, harmed.overrun]
  refine Progress.exact (hreach.invariant hstart fun _ now _ hprogress hregular hstep => ?_)
  cases hstep
  exact hprogress.check hregular

/-- The second check finds two deadlines passed. -/
theorem exact_after_overrun :
    ∃ config : CheckConfig, config.timer.overrun = 1 ∧ config.count = 3 ∧ Exact 17 10 config := by
  have hset : (⟨.process 14, 0, none, 0⟩ : PosixTimer).settime 0 ⟨0, 7⟩ ⟨0, 10⟩ 10 10 =
      .ok ⟨.process 14, 10, some 17, 0⟩ := rfl
  refine ⟨⟨⟨.process 14, 10, some 47, 1⟩, [38, 20], 3⟩, rfl, rfl,
    (exact_of_reachable hset).2 17 rfl _ ((Reachable.start.step 20 ?_ rfl).step 38 ?_ rfl)⟩ <;>
  exact ⟨by decide, fun _ => by decide⟩

end CheckConfig

end Kairix.PosixTimers
