import DevBoards.MainLoop.Iteration

/-!
# PHY link polling across a rebase

The rebase moves `next1HzTick` and `next10HzTick` back by `logTimerMax` but
not `nextPhyPoll`. Until the first rebase `PollPHYs` keeps its pace
(`phy_polled`). A rebase leaves `nextPhyPoll` close to `logTimerMax` while the
counter restarts near 0, so no link poll follows for almost `logTimerMax`
ticks, some 4.7 days at 10 kHz (`phy_starves`). `phy_starved` is such a run,
from boot.
-/
namespace DevBoards.MainLoop

open Deadline (Poll)

/-- `PollPHYs` runs in every window of `500 + 2 * d` ticks. -/
def PhyNeverStarves (d base : Nat) (ts : List Times) : Prop :=
  CalledEvery (500 + 2 * d) ts ((loop.outs (boot base) ts).map Calls.pollPHYs)

/-- No iteration of the run rebases the counter. -/
def NoRebase (base : Nat) (ts : List Times) : Prop :=
  loop.Along (fun s t => ¬ Rebases s t) (boot base) ts

/-- The poll comes before the rebase: until then `nextPhyPoll` is the
real-time deadline `nextPhyPoll + base`. -/
theorem phy_spec {d : Nat} (hd : d < 500) {s : St} {t : Times} (h : InRange d s t) :
    ((iteration s t).1.nextPhyPoll.toNat + s.base, (iteration s t).2.pollPHYs) =
      (Deadline.job 500).step (s.nextPhyPoll.toNat + s.base) t.poll20Hz := by
  have ho := h.ordered
  have := h.offset; have := ho.offset; have := toNat_logTimerMax
  have hspec := pollJob_spec s s.nextPhyPoll 500 t.phyCheck t.phySet h.base ho.phy
    (by simp only [UInt32.reduceToNat]; omega)
  rw [← iteration_phy s t] at hspec
  exact hspec

theorem phy_step {d : Nat} (hd : d < 500) {s : St} {t : Times} (h : InRange d s t)
    (hn : ¬ Rebases s t) :
    ((iteration s t).1.nextPhyPoll.toNat + (iteration s t).1.base, (iteration s t).2.pollPHYs) =
      (Deadline.job 500).step (s.nextPhyPoll.toNat + s.base) t.poll20Hz := by
  rw [iteration_base, if_neg hn]
  exact phy_spec hd h

/-- **No rebase, no starvation.** -/
theorem phy_polled (d base : Nat) (hd : d < 500) (ts : List Times) (hp : Paced d ts)
    (hs : Starts base ts) (hn : NoRebase base ts) : PhyNeverStarves d base ts := by
  have hquiet : loop.Along (fun s t => InRange d s t ∧ ¬ Rebases s t) (boot base) ts :=
    loop.along_and ts _ (reads_in_range hd hp hs) hn
  refine calledEvery_of_job (by decide) hp hs (place_20Hz d) ?_
  exact (job_sim 500 Times.poll20Hz St.nextPhyPoll Calls.pollPHYs
    (fun s t hq => phy_step hd hq.1 hq.2) ts (boot base) (by simp [boot]) hquiet).2

theorem phy_polled_steady : PhyNeverStarves 400 0 (steady 0 400 5) :=
  phy_polled 400 0 (by decide) _ (paced_steady _ _ _) (starts_steady (Nat.le_refl 0) (by decide))
    (by unfold NoRebase; decide)

/-! ## After a rebase -/

/-- Every call happens at a check of the run. -/
theorem polled_at (ts : List Times) (s : St) (c : Nat)
    (h : some c ∈ (loop.outs s ts).map Calls.pollPHYs) : ∃ t ∈ ts, t.phyCheck = c := by
  obtain ⟨o, ho, hc⟩ := List.mem_map.mp h
  obtain ⟨s, t, ht, rfl⟩ := loop.mem_outs ho
  refine ⟨t, ht, ?_⟩
  have hphy : (iteration s t).2.pollPHYs = (pollJob s s.nextPhyPoll 500 t.phyCheck t.phySet).2 :=
    (Prod.ext_iff.mp (iteration_phy s t)).2
  change (iteration s t).2.pollPHYs = some c at hc
  rw [hphy] at hc
  unfold pollJob at hc
  split at hc
  · exact Option.some.inj hc
  · cases hc

/-- The real-time deadline `nextPhyPoll + base` never moves back, and a call
comes only once it is reached. -/
theorem phy_deadline_step {d : Nat} (hd : d < 500) {s : St} {t : Times} (h : InRange d s t) :
    s.nextPhyPoll.toNat + s.base ≤ (iteration s t).1.nextPhyPoll.toNat + (iteration s t).1.base ∧
      ∀ c, (iteration s t).2.pollPHYs = some c → s.nextPhyPoll.toNat + s.base ≤ c := by
  have hspec := phy_spec hd h
  have hset := h.ordered.phy
  have hbase : s.base ≤ (iteration s t).1.base := by rw [iteration_base]; split <;> omega
  by_cases hdue : s.nextPhyPoll.toNat + s.base ≤ t.phyCheck
  · rw [Deadline.job_due (p := t.poll20Hz) hdue] at hspec
    obtain ⟨hnext, hcall⟩ := Prod.mk.inj hspec
    simp only [Times.poll20Hz] at hnext
    refine ⟨by omega, ?_⟩
    intro c hc
    rw [hcall] at hc
    cases hc
    exact hdue
  · rw [Deadline.job_wait (p := t.poll20Hz) (Nat.not_le.mp hdue)] at hspec
    obtain ⟨hnext, hcall⟩ := Prod.mk.inj hspec
    refine ⟨by omega, ?_⟩
    intro c hc
    rw [hcall] at hc
    cases hc

theorem phy_calls_after {d : Nat} (hd : d < 500) (ts : List Times) (s : St)
    (hr : loop.Along (InRange d) s ts) (c : Nat)
    (h : some c ∈ (loop.outs s ts).map Calls.pollPHYs) : s.nextPhyPoll.toNat + s.base ≤ c := by
  induction ts generalizing s with
  | nil => cases h
  | cons t ts ih =>
    obtain ⟨hmono, hcall⟩ := phy_deadline_step hd hr.1
    rw [Machine.outs_cons, List.map_cons, List.mem_cons] at h
    rcases h with h | h
    · exact hcall c h.symm
    · exact Nat.le_trans hmono (ih _ hr.2 h)

/-- **Starvation.** After an iteration that rebases the counter, the next
`PollPHYs` is at least `logTimerMax - 2 * d` ticks away. -/
theorem phy_starves {d : Nat} (hd : d < 500) (s : St) (t : Times) (ts : List Times)
    (hr : loop.Along (InRange d) s (t :: ts)) (hb : Rebases s t) (c : Nat)
    (h : some c ∈ (loop.outs (iteration s t).1 ts).map Calls.pollPHYs) :
    t.offset + logTimerMax.toNat ≤ c + 2 * d := by
  have hlate := phy_calls_after hd ts (iteration s t).1 hr.2 c h
  rw [iteration_base, if_pos hb] at hlate
  have hM := (rebases_iff hd hr.1).mp hb
  have hspec := phy_spec hd hr.1
  obtain ⟨⟨ho, hbase, hoff⟩, -⟩ := hr
  have hspan := ho.span
  have h1 := ho.phy; have h2 := ho.offset; have h3 := ho.check10Hz; have h4 := ho.set10Hz
  have h5 := ho.check1Hz; have h6 := ho.set1Hz
  -- either this iteration polled, or the deadline was still ahead of a counter near the top
  have hnext : logTimerMax.toNat ≤ (iteration s t).1.nextPhyPoll.toNat + d := by
    by_cases hdue : s.nextPhyPoll.toNat + s.base ≤ t.phyCheck
    · rw [Deadline.job_due (p := t.poll20Hz) hdue] at hspec
      have hset := (Prod.mk.inj hspec).1
      simp only [Times.poll20Hz] at hset
      omega
    · rw [Deadline.job_wait (p := t.poll20Hz) (Nat.not_le.mp hdue)] at hspec
      have hkept := (Prod.mk.inj hspec).1
      omega
  omega

/-- A steady run that goes on after its first rebase leaves a window without
`PollPHYs`, the one that opens just after the rebase. -/
theorem steady_starves {p n m : Nat} (hp : p < 500) (hn : p * n < logTimerMax.toNat + p)
    (hn' : logTimerMax.toNat ≤ p * n) (hm : 501 + 2 * p ≤ p * m) :
    ¬ PhyNeverStarves p 0 (steady 0 p (n + m + 1)) := by
  intro hall
  have hM := toNat_logTimerMax
  obtain ⟨c, hc, hlo, hhi⟩ := hall _ (head_steady 0 p (n + m)) _ (last_steady 0 p (n + m))
    (p * n + 1) (Nat.zero_le _) (by simp only [Times.at, Nat.mul_add]; omega)
  have hrange := reads_in_range hp (paced_steady 0 p (n + m + 1))
    (starts_steady (Nat.le_refl 0) (by omega))
  have hsplit : steady 0 p (n + m + 1) =
      steady 0 p n ++ Times.at (p * n) :: steady (p * n + p) p m := by
    rw [Nat.add_assoc, steady_add, Nat.add_comm m 1, steady_add]; simp [steady]
  rw [hsplit] at hrange hc
  have hpre := (loop.along_append _ _ _ _).mp hrange
  have hbase : (loop.final (boot 0) (steady 0 p n)).base = 0 := by
    apply base_kept hp rfl hpre.1
    intro t ht
    obtain ⟨i, hi, rfl⟩ := mem_steady.mp ht
    have : p * (i + 1) ≤ p * n := Nat.mul_le_mul_left p hi
    simp only [Times.at, Nat.mul_succ] at *; omega
  have hreb : Rebases (loop.final (boot 0) (steady 0 p n)) (Times.at (p * n)) := by
    rw [rebases_iff hp hpre.2.1, hbase]; simpa [Times.at] using hn'
  rw [Machine.outs_append, List.map_append, List.mem_append, Machine.outs_cons, List.map_cons,
    List.mem_cons] at hc
  rcases hc with hc | hc | hc
  · obtain ⟨t, ht, rfl⟩ := polled_at _ _ c hc
    obtain ⟨i, hi, rfl⟩ := mem_steady.mp ht
    have : p * i ≤ p * n := Nat.mul_le_mul_left p (Nat.le_of_lt hi)
    simp only [Times.at] at hlo; omega
  · obtain ⟨t, ht, rfl⟩ := polled_at [Times.at (p * n)] _ c (List.mem_singleton.mpr hc)
    rw [List.mem_singleton.mp ht] at hlo
    simp only [Times.at] at hlo; omega
  · have hfar := phy_starves hp _ _ _ hpre.2 hreb c hc
    simp only [Times.at] at hfar; omega

/-- From boot with the counter at 0, one iteration every 400 ticks: the counter
is rebased at tick 4026532000, and no `PollPHYs` follows in the next 1300. -/
theorem phy_starved : Paced 400 (steady 0 400 10066341) ∧ Starts 0 (steady 0 400 10066341) ∧
    ¬ PhyNeverStarves 400 0 (steady 0 400 10066341) := by
  refine ⟨paced_steady _ _ _, starts_steady (Nat.le_refl 0) (by decide), ?_⟩
  exact steady_starves (n := 10066330) (m := 10) (by decide) (by decide) (by decide) (by decide)

end DevBoards.MainLoop
