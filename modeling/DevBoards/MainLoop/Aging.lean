import DevBoards.MainLoop.Iteration

/-!
# Aging ticks across a rebase

The rebase subtracts `logTimerMax` from `next10HzTick` and `next1HzTick` modulo
2^32. A deadline at or above `logTimerMax` moves with the counter. One below it
(already due: the counter has reached `logTimerMax`) wraps to the top of the
32-bit range, which the counter does not reach before its next rebase.

* `still_due_iff`: a due deadline is still due after the rebase if and only if
  it is not below `logTimerMax`.
* `aging_iff`: on every paced run, the ticks keep their pace and no due
  deadline is dropped, if and only if no rebase finds either deadline below
  `logTimerMax`.
-/
namespace DevBoards.MainLoop

open Deadline (Poll)

/-- If the iteration rebases, a deadline that is due stays due. -/
def StillDue (s : St) (t : Times) : Prop :=
  Rebases s t →
    let s' := keepFromWrapping s t.offset
    (s.next10HzTick ≤ s.getCount t.offset → s'.next10HzTick ≤ s'.getCount t.offset) ∧
      (s.next1HzTick ≤ s.getCount t.offset → s'.next1HzTick ≤ s'.getCount t.offset)

/-- `OnAgingTick10x` runs in every window of `1000 + 2 * d` ticks and
`OnAgingTick` in every window of `10000 + 2 * d`, and no rebase drops a
deadline that is due. -/
def AgingSurvives (d base : Nat) (ts : List Times) : Prop :=
  CalledEvery (1000 + 2 * d) ts ((loop.outs (boot base) ts).map Calls.onAgingTick10x) ∧
    CalledEvery (10000 + 2 * d) ts ((loop.outs (boot base) ts).map Calls.onAgingTick) ∧
    loop.Along StillDue (boot base) ts

/-- A rebase finds no deadline below `logTimerMax`. -/
def NoneBelow (s : St) (t : Times) : Prop :=
  Rebases s t → logTimerMax ≤ s.next10HzTick ∧ logTimerMax ≤ s.next1HzTick

instance (s : St) (t : Times) : Decidable (NoneBelow s t) := inferInstanceAs (Decidable (_ → _))

/-- **One deadline across the rebase.** -/
theorem still_due_iff {d : Nat} (hd : d < 500) {s : St} {t : Times} (h : InRange d s t)
    (hb : Rebases s t) (next : UInt32) (hdue : next ≤ s.getCount t.offset) :
    next - logTimerMax ≤ (keepFromWrapping s t.offset).getCount t.offset ↔ logTimerMax ≤ next := by
  have hM := (rebases_iff hd h).mp hb
  have hmax := toNat_logTimerMax
  have h1 := h.base; have h2 := h.ordered.phy; have h3 := h.ordered.offset; have h4 := h.offset
  have hlt := next.toNat_lt
  have hle := (s.due_iff next t.offset (by omega) (by omega)).mp hdue
  rw [keepFromWrapping_true hb, UInt32.le_iff_toNat_le, UInt32.le_iff_toNat_le, UInt32.toNat_sub,
    LogTimer.toNat_getCount _ _ (by simp only; omega)]
  simp only
  omega

/-- The rebase keeps a deadline due, if it is, exactly when it is not below
`logTimerMax`: one below is due. -/
theorem kept_iff {d : Nat} (hd : d < 500) {s : St} {t : Times} (h : InRange d s t)
    (hb : Rebases s t) (next : UInt32) :
    (next ≤ s.getCount t.offset →
        next - logTimerMax ≤ (keepFromWrapping s t.offset).getCount t.offset) ↔
      logTimerMax ≤ next := by
  constructor
  · intro hkept
    by_contra hlow
    have hdue : next ≤ s.getCount t.offset := by
      unfold Rebases at hb
      rw [UInt32.le_iff_toNat_le] at *
      omega
    exact hlow ((still_due_iff hd h hb next hdue).mp (hkept hdue))
  · exact fun hle hdue => (still_due_iff hd h hb next hdue).mpr hle

theorem stillDue_iff {d : Nat} (hd : d < 500) {s : St} {t : Times} (h : InRange d s t) :
    StillDue s t ↔ NoneBelow s t := by
  unfold StillDue NoneBelow
  apply imp_congr_right
  intro hb
  have h10 := kept_iff hd h hb s.next10HzTick
  have h1 := kept_iff hd h hb s.next1HzTick
  rw [keepFromWrapping_true hb] at h10 h1 ⊢
  exact and_congr h10 h1

/-! ## The jobs between and across rebases -/

/-- The rebase keeps the real-time deadlines of deadlines not below
`logTimerMax`; without a rebase nothing moves. -/
theorem keepFromWrapping_deadlines {s : St} {t : Times} (h : NoneBelow s t) :
    (keepFromWrapping s t.offset).next10HzTick.toNat + (keepFromWrapping s t.offset).base =
        s.next10HzTick.toNat + s.base ∧
      (keepFromWrapping s t.offset).next1HzTick.toNat + (keepFromWrapping s t.offset).base =
        s.next1HzTick.toNat + s.base := by
  by_cases hb : Rebases s t
  · obtain ⟨h10, h1⟩ := h hb
    have hmax := toNat_logTimerMax
    have := s.next10HzTick.toNat_lt; have := s.next1HzTick.toNat_lt
    rw [UInt32.le_iff_toNat_le] at h10 h1
    simp only [keepFromWrapping_true hb, UInt32.toNat_sub]
    omega
  · simp only [keepFromWrapping_false hb, and_self]

/-- After `UpdateOffset` the counter is far from its 32-bit wrap. -/
theorem room_after_offset {d : Nat} (hd : d < 500) {s : St} {t : Times} (h : InRange d s t) :
    (keepFromWrapping s t.offset).base ≤ t.offset ∧
      t.set1Hz + 10000 < (keepFromWrapping s t.offset).base + 2 ^ 32 := by
  have hr := rebases_iff hd h
  have hmax := toNat_logTimerMax
  have ho := h.ordered
  have := h.offset; have := h.base; have := ho.phy; have := ho.offset; have := ho.span
  rw [keepFromWrapping_base]
  split
  · have := hr.mp ‹_›; omega
  · have : ¬ s.base + logTimerMax.toNat ≤ t.offset := fun hle => ‹¬ Rebases s t› (hr.mpr hle)
    omega

/-- A job polled after `UpdateOffset`, of a period up to 10000 ticks. -/
theorem pollJob_after_offset {d : Nat} (hd : d < 500) {s : St} {t : Times} (h : InRange d s t)
    (next period : UInt32) {check set : Nat} (hcheck : t.offset ≤ check) (hset : check ≤ set)
    (hend : set ≤ t.set1Hz) (hperiod : period.toNat ≤ 10000) :
    ((pollJob (keepFromWrapping s t.offset) next period check set).1.toNat +
          (keepFromWrapping s t.offset).base,
        (pollJob (keepFromWrapping s t.offset) next period check set).2) =
      (Deadline.job period.toNat).step (next.toNat + (keepFromWrapping s t.offset).base)
        ⟨check, set⟩ := by
  obtain ⟨hb, hroom⟩ := room_after_offset hd h
  exact pollJob_spec _ next period check set (by omega) hset (by omega)

theorem aging10x_step {d : Nat} (hd : d < 500) {s : St} {t : Times} (h : InRange d s t)
    (hn : NoneBelow s t) :
    ((iteration s t).1.next10HzTick.toNat + (iteration s t).1.base,
        (iteration s t).2.onAgingTick10x) =
      (Deadline.job 1000).step (s.next10HzTick.toNat + s.base) t.poll10Hz := by
  have ho := h.ordered
  have hspec := pollJob_after_offset hd h (keepFromWrapping s t.offset).next10HzTick 1000
    ho.check10Hz ho.set10Hz (Nat.le_trans ho.check1Hz ho.set1Hz) (by decide)
  rw [← iteration_10Hz s t, (keepFromWrapping_deadlines hn).1] at hspec
  rw [iteration_base_eq]
  exact hspec

theorem aging_step {d : Nat} (hd : d < 500) {s : St} {t : Times} (h : InRange d s t)
    (hn : NoneBelow s t) :
    ((iteration s t).1.next1HzTick.toNat + (iteration s t).1.base, (iteration s t).2.onAgingTick) =
      (Deadline.job 10000).step (s.next1HzTick.toNat + s.base) t.poll1Hz := by
  have ho := h.ordered
  have hcheck := Nat.le_trans ho.check10Hz (Nat.le_trans ho.set10Hz ho.check1Hz)
  have hspec := pollJob_after_offset hd h (keepFromWrapping s t.offset).next1HzTick 10000
    hcheck ho.set1Hz (Nat.le_refl _) (by decide)
  rw [← iteration_1Hz s t, (keepFromWrapping_deadlines hn).2] at hspec
  rw [iteration_base_eq]
  exact hspec

/-! ## Whole runs -/

section
variable {d base : Nat} (hd : d < 500) {ts : List Times} (hp : Paced d ts) (hs : Starts base ts)
  (hn : loop.Along NoneBelow (boot base) ts)

include hd hp hs hn

/-- The run's 10 Hz deadline and calls are those of the polled job. -/
theorem aging10x_sim :
    (Deadline.job 1000).final base (ts.map Times.poll10Hz) =
        (loop.final (boot base) ts).next10HzTick.toNat + (loop.final (boot base) ts).base ∧
      (loop.outs (boot base) ts).map Calls.onAgingTick10x =
        (Deadline.job 1000).outs base (ts.map Times.poll10Hz) :=
  job_sim 1000 Times.poll10Hz St.next10HzTick Calls.onAgingTick10x
    (fun s t hq => aging10x_step hd hq.1 hq.2) ts (boot base) (by simp [boot])
    (loop.along_and ts _ (reads_in_range hd hp hs) hn)

/-- The same of the 1 Hz deadline. -/
theorem aging_sim :
    (Deadline.job 10000).final base (ts.map Times.poll1Hz) =
        (loop.final (boot base) ts).next1HzTick.toNat + (loop.final (boot base) ts).base ∧
      (loop.outs (boot base) ts).map Calls.onAgingTick =
        (Deadline.job 10000).outs base (ts.map Times.poll1Hz) :=
  job_sim 10000 Times.poll1Hz St.next1HzTick Calls.onAgingTick
    (fun s t hq => aging_step hd hq.1 hq.2) ts (boot base) (by simp [boot])
    (loop.along_and ts _ (reads_in_range hd hp hs) hn)

end

/-- **Aging ticks survive rebases, if and only if** no rebase finds
`next10HzTick` or `next1HzTick` below `logTimerMax`. -/
theorem aging_iff (d base : Nat) (hd : d < 500) (ts : List Times) (hp : Paced d ts)
    (hs : Starts base ts) :
    AgingSurvives d base ts ↔ loop.Along NoneBelow (boot base) ts := by
  have hrange := reads_in_range hd hp hs
  constructor
  · rintro ⟨-, -, hdue⟩
    exact loop.along_mono (fun s t h => (stillDue_iff hd h.1).mp h.2) ts _
      (loop.along_and ts _ hrange hdue)
  · intro hn
    refine ⟨calledEvery_of_job (by decide) hp hs (place_10Hz d) (aging10x_sim hd hp hs hn).2,
      calledEvery_of_job (by decide) hp hs (place_1Hz d) (aging_sim hd hp hs hn).2, ?_⟩
    exact loop.along_mono (fun s t h => (stillDue_iff hd h.1).mpr h.2) ts _
      (loop.along_and ts _ hrange hn)

/-- From one iteration before `logTimerMax` on, for 16000 ticks: the rebase comes
with the second, and after it there is room for windows of both lengths. -/
theorem aging_iff_steady :
    let ts := steady (logTimerMax.toNat - 400) 400 41
    loop.Along NoneBelow (boot 0) ts ∧ (loop.final (boot 0) ts).base = logTimerMax.toNat ∧
      AgingSurvives 400 0 ts := by
  intro ts
  have hnone : loop.Along NoneBelow (boot 0) ts := by decide +kernel
  exact ⟨hnone, by decide +kernel, (aging_iff 400 0 (by decide) ts (paced_steady _ _ _)
    (starts_steady (Nat.zero_le _) (by decide))).mpr hnone⟩

/-! ## A run that loses its retransmit timer -/

/-- Polled every 400 ticks, a 1000-tick job runs at every third poll. -/
theorem steady_cycle (k c dl : Nat) (h : dl ≤ c) :
    (Deadline.job 1000).final dl ((steady c 400 (3 * (k + 1))).map Times.poll10Hz) =
      c + 1200 * k + 1000 := by
  induction k generalizing c dl with
  | zero =>
    simp [steady, List.range_succ, Times.at, Times.poll10Hz, Deadline.job_due, Deadline.job_wait, h]
  | succ k ih =>
    have hthree : (Deadline.job 1000).final dl ((steady c 400 3).map Times.poll10Hz) =
        c + 1000 := by
      simp [steady, List.range_succ, Times.at, Times.poll10Hz, Deadline.job_due,
        Deadline.job_wait, h]
    rw [show 3 * (k + 1 + 1) = 3 + 3 * (k + 1) by omega, steady_add, List.map_append,
      Machine.final_append, hthree, ih (c + 400 * 3) (c + 1000) (by omega)]
    omega

/-- A steady run that steps over `logTimerMax` after its 10 Hz deadline fell
due loses that deadline. -/
theorem steady_loses {c k : Nat} (hdue : c + 1200 * k + 1000 < logTimerMax.toNat)
    (hover : logTimerMax.toNat ≤ c + 1200 * (k + 1)) :
    ¬ AgingSurvives 400 0 (steady c 400 (3 * (k + 1) + 1)) := by
  intro hall
  have hmax := toNat_logTimerMax
  have hsplit : steady c 400 (3 * (k + 1) + 1) =
      steady c 400 (3 * (k + 1)) ++ [Times.at (c + 400 * (3 * (k + 1)))] := by
    rw [steady_add]; simp [steady]
  have hrange := reads_in_range (by decide) (paced_steady c 400 (3 * (k + 1) + 1))
    (starts_steady (Nat.zero_le c) (by omega))
  have hstill := hall.2.2
  rw [hsplit] at hrange hstill
  obtain ⟨hpre, hat, -⟩ := (loop.along_append _ _ _ _).mp hrange
  obtain ⟨-, hlast, -⟩ := (loop.along_append _ _ _ _).mp hstill
  have hlow : ∀ t ∈ steady c 400 (3 * (k + 1)), t.offset < 0 + logTimerMax.toNat := by
    intro t ht
    obtain ⟨i, hi, rfl⟩ := mem_steady.mp ht
    simp only [Times.at]; omega
  have hbase := base_kept (by decide) (show (boot 0).base = 0 from rfl) hpre hlow
  have hquiet : loop.Along NoneBelow (boot 0) (steady c 400 (3 * (k + 1))) :=
    loop.along_mono (fun s t h hb => absurd hb h) _ _ (no_rebase (by decide) rfl hpre hlow)
  have hnext := (aging10x_sim (by decide) (paced_steady c 400 (3 * (k + 1)))
    (starts_steady (Nat.zero_le c) (by omega)) hquiet).1
  rw [steady_cycle k c 0 (Nat.zero_le c), hbase] at hnext
  have hreb : Rebases (loop.final (boot 0) (steady c 400 (3 * (k + 1))))
      (Times.at (c + 400 * (3 * (k + 1)))) := by
    rw [rebases_iff (by decide) hat, hbase]; simp only [Times.at]; omega
  have hmiss := ((stillDue_iff (by decide) hat).mp hlast hreb).1
  rw [UInt32.le_iff_toNat_le] at hmiss
  omega

/-- From boot with the counter at 340, one iteration every 400 ticks. At tick
4026531940 the counter has passed `logTimerMax`, and `next10HzTick` is
4026531740: the rebase turns it into 4294967196. -/
theorem aging_lost : Paced 400 (steady 340 400 10066330) ∧ Starts 0 (steady 340 400 10066330) ∧
    ¬ AgingSurvives 400 0 (steady 340 400 10066330) :=
  ⟨paced_steady _ _ _, starts_steady (by decide) (by decide),
    steady_loses (c := 340) (k := 3355442) (by decide) (by decide)⟩

end DevBoards.MainLoop
