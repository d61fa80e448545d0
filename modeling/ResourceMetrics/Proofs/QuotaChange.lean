import Mathlib.Algebra.Order.Field.Basic
import Mathlib.Algebra.Order.Field.Rat
import Mathlib.Tactic.Ring
import ResourceMetrics.Proofs.LoadRun

/-! The load of a container whose quota changes between two calls. The stored total is what the
quota of the earlier call would have granted in all periods since the start, and the new total what
the new quota would have granted in all of them. So a change of the quota counts for the periods
before it too, and the load is relative to what was granted between the calls only if both quotas
are the same or the answer is clamped anyway. -/

namespace ResourceMetrics

variable {σ α : Type}

theorem clamp_of_lt_one {x : Rat} (hpos : 0 < x) (h : x < 1) : Load.clamp x = x := by
  have hzero : (Load.zero : Rat) = 0 := rfl
  have hone : (Load.one : Rat) = 1 := rfl
  unfold Load.clamp
  rw [hzero, hone, if_neg (not_lt.2 hpos.le), if_neg (not_lt.2 h.le)]

theorem clamp_of_one_le {x : Rat} (h : 1 ≤ x) : Load.clamp x = 1 := by
  have hzero : (Load.zero : Rat) = 0 := rfl
  have hone : (Load.one : Rat) = 1 := rfl
  unfold Load.clamp
  rw [hzero, hone, if_neg (not_lt.2 (zero_le_one.trans h))]
  dsimp only
  by_cases hlt : 1 < x
  · rw [if_pos hlt]
  · rw [if_neg hlt]
    exact le_antisymm (not_lt.1 hlt) h

theorem clamp_pos {x : Rat} (h : 0 < x) : 0 < Load.clamp x := by
  rcases lt_or_ge x 1 with hx | hx
  · rw [clamp_of_lt_one h hx]
    exact h
  · rw [clamp_of_one_le hx]
    exact one_pos

/-- Two ratios of one amount are told apart by clamping, unless both bases are used up. -/
theorem clamp_div_eq_iff {used base base' : Rat} (hused : 0 < used) (hbase : 0 < base)
    (hlt : base < base') :
    Load.clamp (used / base) = Load.clamp (used / base') ↔ base' ≤ used := by
  have hbase' : 0 < base' := hbase.trans hlt
  constructor
  · intro h
    by_contra hle
    have hsmall : used / base' < 1 := (div_lt_one hbase').2 (not_le.1 hle)
    rw [clamp_of_lt_one (div_pos hused hbase') hsmall] at h
    rcases lt_or_ge (used / base) 1 with hone | hone
    · rw [clamp_of_lt_one (div_pos hused hbase) hone] at h
      exact absurd h (div_lt_div_of_pos_left hused hbase hlt).ne'
    · rw [clamp_of_one_le hone] at h
      exact absurd h hsmall.ne'
  · intro hle
    rw [clamp_of_one_le ((one_le_div hbase).2 (hlt.le.trans hle)),
      clamp_of_one_le ((one_le_div hbase').2 hle)]

section Interval

variable {used low high base : Rat} (hused : 0 < used)

include hused in
/-- A base above an interval gives the same load as some base in it only if it is used up. -/
theorem exists_clamp_div_eq_iff_of_gt (hlow : 0 < low) (hle : low ≤ high) (hbase : high < base) :
    (∃ time, low ≤ time ∧ time ≤ high ∧ Load.clamp (used / base) = Load.clamp (used / time)) ↔
      base ≤ used := by
  constructor
  · rintro ⟨time, htime, hhigh, heq⟩
    exact (clamp_div_eq_iff hused (hlow.trans_le htime) (hhigh.trans_lt hbase)).1 heq.symm
  · intro hfull
    refine ⟨high, hle, le_rfl, ?_⟩
    exact ((clamp_div_eq_iff hused (hlow.trans_le hle) hbase).2 hfull).symm

include hused in
/-- A base below an interval gives the same load as some base in it only if the least base of the
interval is used up. -/
theorem exists_clamp_div_eq_iff_of_lt (hpos : 0 < base) (hle : low ≤ high) (hbase : base < low) :
    (∃ time, low ≤ time ∧ time ≤ high ∧ Load.clamp (used / base) = Load.clamp (used / time)) ↔
      low ≤ used := by
  constructor
  · rintro ⟨time, htime, _, heq⟩
    exact htime.trans ((clamp_div_eq_iff hused hpos (hbase.trans_le htime)).1 heq)
  · intro hfull
    exact ⟨low, le_rfl, hle, (clamp_div_eq_iff hused hpos hbase).2 hfull⟩

end Interval

/-- What a call on the quota path reads: the quota, the periods since the start, and the time used
in them. -/
structure QuotaCall where
  quota : Counter
  periods : Counter
  usage : Counter

namespace QuotaCall

/-- The time that the quota of the call makes of all periods since the start, in nanoseconds. -/
def granted (call : QuotaCall) : Nat := call.quota.toNat * call.periods.toNat * 1000

/-- The report is of a container with a quota, and the granted time fits a counter. -/
structure ReadFrom (call : QuotaCall) (report : CpuReport α) : Prop where
  container : ∃ c, report.container = some c ∧ c.quota = some call.quota ∧
    c.elapsedPeriods = some call.periods ∧ c.cpuUsage = some call.usage
  quota_pos : 0 < call.quota
  granted_lt : call.granted < UInt64.size

theorem ReadFrom.grantedTime {call : QuotaCall} {report : CpuReport α} (h : call.ReadFrom report) :
    ∃ total : Counter, total.toNat = call.granted ∧
      Monitor.grantedTime call.quota (some call.periods) = some total := by
  have hfits : (UInt64.ofNat call.granted).toNat = call.granted :=
    UInt64.toNat_ofNat_of_lt' h.granted_lt
  exact ⟨_, hfits, Monitor.grantedTime_eq_some_iff.2 ⟨_, rfl, hfits⟩⟩

theorem ReadFrom.granted_pos {call : QuotaCall} {report : CpuReport α} (h : call.ReadFrom report)
    (hperiods : 0 < call.periods) : 0 < call.granted := by
  have hquota := UInt64.lt_iff_toNat_lt.1 h.quota_pos
  have hsome := UInt64.lt_iff_toNat_lt.1 hperiods
  exact Nat.mul_pos (Nat.mul_pos hquota hsome) (by decide)

theorem ReadFrom.samples {call : QuotaCall} {report : CpuReport α} (h : call.ReadFrom report) :
    ∃ total : Counter, total.toNat = call.granted ∧
      report.samples = some (some call.usage, some total) := by
  obtain ⟨c, hcontainer, hquota, hperiods, husage⟩ := h.container
  obtain ⟨total, htotal, hgranted⟩ := h.grantedTime
  have hactive : positive? c.quota = some call.quota :=
    positive?_eq_some_iff.2 ⟨hquota, h.quota_pos⟩
  refine ⟨total, htotal, ?_⟩
  unfold CpuReport.samples
  rw [hcontainer, Option.bind_some, hactive]
  dsimp only
  rw [hperiods, husage, hgranted]

variable (before now : QuotaCall)

/-- The time that was used between two calls. -/
def used : Nat := now.usage.toNat - before.usage.toNat

/-- The time granted between two calls if each period in between grants the same quota. -/
def grantedAt (quota : Nat) : Nat := quota * (now.periods.toNat - before.periods.toNat) * 1000

/-- The load is relative to some time that periods of either quota grant between the calls. -/
def Prorated (load : Rat) : Prop :=
  ∃ time : Rat,
    before.grantedAt now (min before.quota.toNat now.quota.toNat) ≤ time ∧
    time ≤ before.grantedAt now (max before.quota.toNat now.quota.toNat) ∧
    load = Load.clamp (before.used now / time)

/-- When a change of the quota does not show: there is none, or the answer is clamped to a full
load both as it is and by any time that was granted. -/
inductive Unaffected : Prop
  | same : before.quota = now.quota → Unaffected
  | raised : before.quota < now.quota → now.granted - before.granted ≤ before.used now →
      Unaffected
  | lowered : now.quota < before.quota → before.granted < now.granted →
      before.grantedAt now now.quota.toNat ≤ before.used now → Unaffected

variable {before now}

section Elapsed

variable (hperiods : before.periods < now.periods)

include hperiods in
/-- What the new quota makes of all periods, split at the earlier call. -/
theorem granted_eq : now.granted =
    now.quota.toNat * before.periods.toNat * 1000 + before.grantedAt now now.quota.toNat := by
  have hlt := UInt64.lt_iff_toNat_lt.1 hperiods
  have hsplit : now.periods.toNat =
      before.periods.toNat + (now.periods.toNat - before.periods.toNat) := by omega
  unfold granted grantedAt
  rw [← Nat.add_mul, ← Nat.mul_add, ← hsplit]

include hperiods in
theorem grantedAt_pos {quota : Nat} (h : 0 < quota) : 0 < before.grantedAt now quota := by
  have hlt := UInt64.lt_iff_toNat_lt.1 hperiods
  exact Nat.mul_pos (Nat.mul_pos h (Nat.sub_pos_of_lt hlt)) (by decide)

include hperiods in
theorem sub_granted_of_same (h : before.quota = now.quota) :
    now.granted - before.granted = before.grantedAt now now.quota.toNat := by
  have hbefore : before.granted = now.quota.toNat * before.periods.toNat * 1000 := by
    rw [granted, h]
  rw [granted_eq hperiods, hbefore, Nat.add_sub_cancel_left]

variable (hstart : 0 < before.periods)

include hstart in
/-- The earlier periods count for more under a higher quota. -/
theorem granted_start_lt {quota quota' : Counter} (h : quota < quota') :
    quota.toNat * before.periods.toNat * 1000 < quota'.toNat * before.periods.toNat * 1000 := by
  have hpos : 0 < before.periods.toNat := UInt64.lt_iff_toNat_lt.1 hstart
  have hlt := UInt64.lt_iff_toNat_lt.1 h
  exact Nat.mul_lt_mul_of_pos_right (Nat.mul_lt_mul_of_pos_right hlt hpos) (by decide)

include hperiods hstart in
theorem grantedAt_lt_of_raised (h : before.quota < now.quota) :
    before.grantedAt now now.quota.toNat < now.granted - before.granted := by
  have hless := granted_start_lt hstart h
  rw [granted_eq hperiods, granted]
  omega

include hperiods hstart in
theorem sub_granted_lt_of_lowered (h : now.quota < before.quota)
    (hgrown : before.granted < now.granted) :
    now.granted - before.granted < before.grantedAt now now.quota.toNat := by
  have hmore := granted_start_lt hstart h
  rw [granted_eq hperiods, granted] at hgrown ⊢
  omega

end Elapsed

section Prorated

variable (hpos : 0 < before.quota) (hpos' : 0 < now.quota) (hstart : 0 < before.periods)
  (hperiods : before.periods < now.periods) (husage : before.usage < now.usage)

include hpos hpos' hperiods in
/-- What periods of the lower quota grant between the calls is positive. -/
theorem grantedAt_min_pos :
    (0 : Rat) < before.grantedAt now (min before.quota.toNat now.quota.toNat) := by
  have hlow := UInt64.lt_iff_toNat_lt.1 hpos
  have hlow' := UInt64.lt_iff_toNat_lt.1 hpos'
  exact Nat.cast_pos.2 (grantedAt_pos hperiods (lt_min hlow hlow'))

theorem grantedAt_min_le_max :
    (before.grantedAt now (min before.quota.toNat now.quota.toNat) : Rat) ≤
      before.grantedAt now (max before.quota.toNat now.quota.toNat) :=
  Nat.cast_le.2 (Nat.mul_le_mul_right _ (Nat.mul_le_mul_right _ min_le_max))

include husage in
theorem used_pos : (0 : Rat) < before.used now :=
  Nat.cast_pos.2 (Nat.sub_pos_of_lt (UInt64.lt_iff_toNat_lt.1 husage))

include hpos hpos' hperiods husage in
/-- Something was used, so no time that was granted makes an idle load of it. -/
theorem not_prorated_zero : ¬before.Prorated now 0 := by
  rintro ⟨time, hlow, _, hload⟩
  have htime := (grantedAt_min_pos hpos hpos' hperiods).trans_le hlow
  exact (clamp_pos (div_pos (used_pos husage) htime)).ne hload

include hpos hpos' hstart hperiods husage in
theorem prorated_iff_unaffected (hgrown : before.granted < now.granted) :
    before.Prorated now (Load.clamp (before.used now / (now.granted - before.granted : ℕ))) ↔
      before.Unaffected now := by
  have hused := used_pos husage
  have hlow := grantedAt_min_pos hpos hpos' hperiods
  have hle : (before.grantedAt now (min before.quota.toNat now.quota.toNat) : Rat) ≤
    before.grantedAt now (max before.quota.toNat now.quota.toNat) := grantedAt_min_le_max
  unfold Prorated
  rcases lt_trichotomy before.quota.toNat now.quota.toNat with hlt | heq | hlt
  · have hraised : before.quota < now.quota := UInt64.lt_iff_toNat_lt.2 hlt
    have hmore := grantedAt_lt_of_raised hperiods hstart hraised
    rw [max_eq_right hlt.le] at hle ⊢
    rw [exists_clamp_div_eq_iff_of_gt hused hlow hle (Nat.cast_lt.2 hmore), Nat.cast_le]
    constructor
    · exact .raised hraised
    · rintro (hsame | ⟨-, hfull⟩ | ⟨hlowered, -, -⟩)
      · exact absurd (congrArg UInt64.toNat hsame) hlt.ne
      · exact hfull
      · exact absurd (UInt64.lt_iff_toNat_lt.1 hlowered) hlt.asymm
  · have hsame : before.quota = now.quota := UInt64.toNat_inj.1 heq
    rw [sub_granted_of_same hperiods hsame, heq, min_self, max_self]
    exact iff_of_true ⟨_, le_rfl, le_rfl, rfl⟩ (.same hsame)
  · have hlowered : now.quota < before.quota := UInt64.lt_iff_toNat_lt.2 hlt
    have hless := sub_granted_lt_of_lowered hperiods hstart hlowered hgrown
    have helapsed : (0 : Rat) < (now.granted - before.granted : ℕ) :=
      Nat.cast_pos.2 (Nat.sub_pos_of_lt hgrown)
    rw [min_eq_right hlt.le] at hle ⊢
    rw [exists_clamp_div_eq_iff_of_lt hused helapsed hle (Nat.cast_lt.2 hless), Nat.cast_le]
    constructor
    · exact .lowered hlowered hgrown
    · rintro (hsame | ⟨hraised, -⟩ | ⟨-, -, hfull⟩)
      · exact absurd (congrArg UInt64.toNat hsame) hlt.ne'
      · exact absurd (UInt64.lt_iff_toNat_lt.1 hraised) hlt.asymm
      · exact hfull

include hpos' hperiods hstart in
/-- Under a quota that is not lowered, and wherever a change does not show, the total grows. -/
theorem Unaffected.grown (h : before.Unaffected now) : before.granted < now.granted := by
  have hnew := grantedAt_pos hperiods (UInt64.lt_iff_toNat_lt.1 hpos')
  cases h with
  | same hsame =>
      have helapsed := sub_granted_of_same hperiods hsame
      omega
  | raised hraised _ =>
      have hmore := grantedAt_lt_of_raised hperiods hstart hraised
      omega
  | lowered _ hgrown _ => exact hgrown

/-- What the second of two calls on the quota path answers, and when that is relative to what was
granted between them. -/
structure ChangeLaw (before now : QuotaCall) (answer : Option Rat) : Prop where
  grown : before.granted < now.granted → answer =
    some (Load.clamp ((before.used now : Rat) / (now.granted - before.granted : ℕ)))
  shrunk : now.granted ≤ before.granted → answer = some 0
  prorated_iff : (∃ load, answer = some load ∧ before.Prorated now load) ↔ before.Unaffected now

include hpos hpos' hstart hperiods husage in
/-- The first two clauses settle the third. -/
theorem ChangeLaw.of_answer {answer : Option Rat}
    (hgrown : before.granted < now.granted → answer =
      some (Load.clamp ((before.used now : Rat) / (now.granted - before.granted : ℕ))))
    (hshrunk : now.granted ≤ before.granted → answer = some 0) :
    before.ChangeLaw now answer where
  grown := hgrown
  shrunk := hshrunk
  prorated_iff := by
    rcases lt_or_ge before.granted now.granted with hlt | hle
    · rw [hgrown hlt, ← prorated_iff_unaffected hpos hpos' hstart hperiods husage hlt]
      exact ⟨fun ⟨_, hload, h⟩ => Option.some.inj hload ▸ h, fun h => ⟨_, rfl, h⟩⟩
    · rw [hshrunk hle]
      refine iff_of_false ?_ fun h => (h.grown hpos' hstart hperiods).not_ge hle
      rintro ⟨_, ⟨rfl⟩, h⟩
      exact not_prorated_zero hpos hpos' hperiods husage h

end Prorated

end QuotaCall

/-- Of two calls in a row on the quota path the second answers by the new quota alone, applied to
all periods since the start. -/
theorem load_of_quota_change {past : List (CpuReport Rat)} {first second : CpuReport Rat}
    {before now : QuotaCall} {m : Monitor σ Rat} {calm : σ → Prop} {s : Session σ}
    (hs : Reached (first :: past) s) (hm : m.Reports calm second) (hcalm : calm s.source)
    (hfirst : before.ReadFrom first) (hsecond : now.ReadFrom second)
    (hstart : 0 < before.periods) (hperiods : before.periods < now.periods)
    (husage : before.usage < now.usage) :
    ∃ answer s', m.load s = .ok answer s' ∧ before.ChangeLaw now answer := by
  obtain ⟨answer, s', hload, -, hlaw⟩ := (hm.load_triple s.history).exists_ok ⟨rfl, hcalm⟩
  -- The history holds the samples of the first call.
  obtain ⟨last, hlast, hsamples⟩ := hfirst.samples
  have hhistory : s.history = ⟨before.usage, last⟩ := by
    rw [hs.history_eq, historyAfter, hsamples]
    rfl
  rw [hhistory] at hlaw
  obtain ⟨c, hcontainer, hquota, helapsed, hcpu⟩ := hsecond.container
  obtain ⟨total, htotal, hmeasured⟩ := hlaw.quota hcontainer hquota hsecond.quota_pos
  obtain ⟨t, ht⟩ : ∃ t : Counter, t.toNat = now.granted :=
    ⟨_, UInt64.toNat_ofNat_of_lt' hsecond.granted_lt⟩
  have hnow : total = some t := (htotal t).2 ⟨now.periods, helapsed, ht⟩
  have hpos : 0 < t := by
    have hsome := hsecond.granted_pos (UInt64.lt_trans hstart hperiods)
    rw [UInt64.lt_iff_toNat_lt, ht]
    exact hsome
  refine ⟨answer, s', hload, .of_answer hfirst.quota_pos hsecond.quota_pos hstart hperiods husage
    ?_ ?_⟩
  · intro hgrown
    have hlt : last < t := by
      rw [UInt64.lt_iff_toNat_lt, hlast, ht]
      exact hgrown
    rw [hmeasured.grown hcpu hnow husage hlt, hlast, ht]
    rfl
  · intro hshrunk
    have hle : t ≤ last := by
      rw [UInt64.le_iff_toNat_le, hlast, ht]
      exact hshrunk
    exact hmeasured.stalled hcpu hnow hpos (Or.inr hle)

/-- The container of a call on the quota path. -/
def QuotaCall.report (call : QuotaCall) : CpuReport Rat where
  container := some
    { quota := some call.quota
      elapsedPeriods := some call.periods
      cpuUsage := some call.usage }

theorem QuotaCall.readFrom_report {call : QuotaCall} (hpos : 0 < call.quota)
    (hlt : call.granted < UInt64.size) : call.ReadFrom call.report where
  container := ⟨_, rfl, rfl, rfl, rfl⟩
  quota_pos := hpos
  granted_lt := hlt

theorem QuotaCall.report_reports (call : QuotaCall) :
    (Scenario.monitor true).Reports (· = call.report.scenario []) call.report :=
  call.report.scenario_reports [] fun _ => rfl

/-- A quota of 100 ms for ten periods, in which 200 ms are used. -/
def earlyCall : QuotaCall := ⟨100000, 10, 200000000⟩

/-- The quota is 200 ms for ten more periods, in which 500 ms are used. -/
def raisedCall : QuotaCall := ⟨200000, 20, 700000000⟩

/-- Ten periods grant from 1 s to 2 s, so the load would be from a quarter to a half. -/
theorem load_of_quota_raised :
    ∃ s', (Scenario.monitor true).load ⟨⟨200000000, 1000000000⟩, raisedCall.report.scenario []⟩ =
        .ok (some (1 / 6)) s' ∧
      ¬earlyCall.Prorated raisedCall (1 / 6) := by
  have hrun : Reached [earlyCall.report]
      (⟨⟨200000000, 1000000000⟩, raisedCall.report.scenario []⟩ : Session (Scenario Rat)) :=
    .change _ (.load earlyCall.report_reports rfl (.fresh (earlyCall.report.scenario [])))
  obtain ⟨answer, s', hload, hlaw⟩ := load_of_quota_change hrun raisedCall.report_reports rfl
    (QuotaCall.readFrom_report (by decide) (by decide))
    (QuotaCall.readFrom_report (by decide) (by decide)) (by decide) (by decide) (by decide)
  have hanswer : answer = some (1 / 6) := by
    rw [hlaw.grown (by decide)]
    decide +kernel
  refine ⟨s', hanswer ▸ hload, ?_⟩
  intro hprorated
  rcases hlaw.prorated_iff.1 ⟨_, hanswer, hprorated⟩ with hsame | ⟨-, hfull⟩ | ⟨hlowered, -, -⟩
  · exact absurd hsame (by decide)
  · exact absurd hfull (by decide)
  · exact absurd hlowered (by decide)

/-- A quota of 200 ms for ten periods, half of which is used. -/
def generousCall : QuotaCall := ⟨200000, 10, 1000000000⟩

/-- The quota is 100 ms for one more period, in which 200 ms are used. -/
def loweredCall : QuotaCall := ⟨100000, 11, 1200000000⟩

/-- All that may have been granted was used, and yet the load is reported as idle. -/
theorem load_of_quota_lowered :
    ∃ s s' : Session (Scenario Rat),
      (Scenario.monitor true).load { source := generousCall.report.scenario [] } =
        .ok (some (1 / 2)) s ∧
      (Scenario.monitor true).load { s with source := loweredCall.report.scenario [] } =
        .ok (some 0) s' ∧
      ¬generousCall.Prorated loweredCall 0 := by
  have hhalf : ({} : LoadHistory).load? (some 1000000000) (some 2000000000) =
      some (1 / 2 : Rat) := by decide +kernel
  refine ⟨⟨⟨1000000000, 2000000000⟩, generousCall.report.scenario []⟩,
    ⟨⟨1200000000, 1100000000⟩, loweredCall.report.scenario []⟩, ?_, ?_, ?_⟩
  · rw [← hhalf]
    rfl
  · rfl
  · exact QuotaCall.not_prorated_zero (by decide) (by decide) (by decide) (by decide)

end ResourceMetrics
