import Mathlib.Data.List.ReduceOption
import DevBoards.MainLoop.LinkState
import DevBoards.MainLoop.PhyPoll

/-!
# What the IP stack knows of the link

The main loop together with the PHY. The two registers that `PollPHYs` reads
are signals over the real time; the loop reads them when it polls.

* `device_polled`: the board is the loop and, on what it reads, `PollPHYs`.
* `link_fresh`: as long as nothing is rebased, what the stack was told last is
  what the link was a short while ago.
* `link_deaf`: once the counter is rebased, it is what the link was before, for
  almost `logTimerMax` ticks.
* `link_dead`: after a poll that comes shortly before the rebase, for good.
-/
namespace DevBoards.MainLoop

open LinkState (Effect Call notice notices)

/-- The PHY's registers, at each real time. -/
structure Phy where
  bctl : Nat → BitVec 16
  bstat : Nat → BitVec 16

def Phy.up (phy : Phy) (now : Nat) : Bool := phy.bstat now &&& 4 == 4

/-- One iteration, and the real times at which `PollPHYs` reads the registers,
if it is called. -/
structure Turn where
  times : Times
  readCtl : Nat
  readStat : Nat
deriving DecidableEq, Repr

structure Turn.Ordered (t : Turn) : Prop where
  ctl : t.times.phyCheck ≤ t.readCtl
  stat : t.readCtl ≤ t.readStat
  set : t.readStat ≤ t.times.phySet

def Phy.read (phy : Phy) (t : Turn) : LinkState.Poll := ⟨phy.bctl t.readCtl, phy.bstat t.readStat⟩

structure Device where
  timer : St
  link : LinkState.St
deriving DecidableEq, Repr

def Device.boot (base : Nat) : Device := ⟨MainLoop.boot base, LinkState.boot⟩

/-- The main loop; its output is what `PollPHYs` did, if it was called. -/
def device (phy : Phy) : Machine Device Turn (Option (List Effect)) where
  step s t :=
    let r := iteration s.timer t.times
    match r.2.pollPHYs with
    | none => (⟨r.1, s.link⟩, none)
    | some _ =>
      let polled := LinkState.pollPHYs s.link (phy.read t)
      (⟨r.1, polled.1⟩, some polled.2)

/-- The calls into the IP stack, in order. -/
def told (outs : List (Option (List Effect))) : List Call :=
  outs.reduceOption.flatMap LinkState.calls

/-! ## The polls of a run -/

/-- The turns in which `PollPHYs` is called. -/
def polled : St → List Turn → List Turn
  | _, [] => []
  | s, t :: ts =>
    let r := iteration s t.times
    if r.2.pollPHYs.isSome then t :: polled r.1 ts else polled r.1 ts

/-- The link is what the polls of the run make of it. -/
theorem device_polled (phy : Phy) (ts : List Turn) (s : Device) :
    ((device phy).final s ts).timer = loop.final s.timer (ts.map Turn.times) ∧
      ((device phy).final s ts).link =
        LinkState.link.final s.link ((polled s.timer ts).map phy.read) ∧
      ((device phy).outs s ts).reduceOption =
        LinkState.link.outs s.link ((polled s.timer ts).map phy.read) := by
  induction ts generalizing s with
  | nil => exact ⟨rfl, rfl, rfl⟩
  | cons t ts ih =>
    rw [Machine.final_cons, Machine.outs_cons]
    cases hcall : (iteration s.timer t.times).2.pollPHYs with
    | none =>
      have hstep : (device phy).step s t = (⟨(iteration s.timer t.times).1, s.link⟩, none) := by
        simp only [device, hcall]
      have hpolled : polled s.timer (t :: ts) = polled (iteration s.timer t.times).1 ts := by
        simp [polled, hcall]
      rw [hstep, hpolled, List.reduceOption_cons_of_none]
      exact ih _
    | some c =>
      have hstep : (device phy).step s t =
          (⟨(iteration s.timer t.times).1, (LinkState.pollPHYs s.link (phy.read t)).1⟩,
            some (LinkState.pollPHYs s.link (phy.read t)).2) := by
        simp only [device, hcall]
      have hpolled : polled s.timer (t :: ts) = t :: polled (iteration s.timer t.times).1 ts := by
        simp [polled, hcall]
      obtain ⟨htimer, hlink, houts⟩ := ih ((device phy).step s t).1
      rw [hstep] at htimer hlink houts ⊢
      rw [hpolled, List.reduceOption_cons_of_some]
      exact ⟨htimer, hlink, congrArg _ houts⟩

/-- The calls of the loop are at the checks of the polled turns. -/
theorem calls_polled (ts : List Turn) (s : St) :
    ((loop.outs s (ts.map Turn.times)).map Calls.pollPHYs).reduceOption =
      (polled s ts).map fun t => t.times.phyCheck := by
  induction ts generalizing s with
  | nil => rfl
  | cons t ts ih =>
    rw [List.map_cons, Machine.outs_cons, List.map_cons]
    unfold polled
    dsimp only
    cases hcall : (iteration s t.times).2.pollPHYs with
    | none =>
      have hout : (loop.step s t.times).2.pollPHYs = none := hcall
      rw [hout, List.reduceOption_cons_of_none]
      exact ih _
    | some c =>
      have hout : (loop.step s t.times).2.pollPHYs = some c := hcall
      obtain ⟨t', ht', hsame⟩ := polled_at [t.times] s c (List.mem_singleton.mpr hout.symm)
      rw [List.mem_singleton.mp ht'] at hsame
      rw [hout, List.reduceOption_cons_of_some, ← hsame]
      exact congrArg _ (ih _)

theorem mem_calls {ts : List Turn} {s : St} {c : Nat} :
    some c ∈ (loop.outs s (ts.map Turn.times)).map Calls.pollPHYs ↔
      ∃ t ∈ polled s ts, t.times.phyCheck = c := by
  rw [← List.reduceOption_mem_iff, calls_polled, List.mem_map]

theorem polled_sublist (ts : List Turn) (s : St) : (polled s ts).Sublist ts := by
  induction ts generalizing s with
  | nil => exact .slnil
  | cons t ts ih =>
    unfold polled
    dsimp only
    split
    · exact (ih _).cons_cons t
    · exact (ih _).cons t

/-- `t` is no later than `t'`. -/
structure Turn.Le (t t' : Turn) : Prop where
  check : t.times.phyCheck ≤ t'.times.phyCheck
  last : t.times.set1Hz ≤ t'.times.set1Hz

instance : IsTrans Turn Turn.Le := ⟨fun _ _ _ h h' => ⟨h.check.trans h'.check, h.last.trans h'.last⟩⟩

theorem turns_sorted {d : Nat} {ts : List Turn} (hp : Paced d (ts.map Turn.times)) :
    ts.Pairwise Turn.Le := by
  refine List.isChain_iff_pairwise.mp (((List.isChain_map Turn.times).mp hp.next).imp_of_mem_imp ?_)
  intro t t' ht ht' hnext
  have inside (t : Turn) (ht : t ∈ ts) : t.times.phyCheck ≤ t.times.set1Hz := by
    obtain ⟨h1, h2, h3⟩ := (place_20Hz d).inside t.times (hp.ordered _ (List.mem_map_of_mem ht))
    exact h1.trans (h2.trans h3)
  exact ⟨(inside t ht).trans hnext.order, hnext.order.trans (inside t' ht')⟩

theorem le_getLast {ts : List Turn} (h : ts.Pairwise Turn.Le) {t t₁ : Turn} (ht : t ∈ ts)
    (ht₁ : t₁ ∈ ts.getLast?) : t = t₁ ∨ t.Le t₁ := by
  obtain ⟨init, rfl⟩ := List.getLast?_eq_some_iff.mp ht₁
  rcases List.mem_append.mp ht with ht | ht
  · exact .inr ((List.pairwise_append.mp h).2.2 t ht t₁ (List.mem_singleton_self t₁))
  · exact .inl (List.mem_singleton.mp ht)

/-! ## What the stack was told last -/

theorem notices_last (prev : Bool) (bups : List Bool) :
    (notices prev bups).flatten.getLastD (LinkState.call prev) =
      LinkState.call (bups.getLastD prev) := by
  induction bups generalizing prev with
  | nil => rfl
  | cons bup bups ih =>
    show (notice prev bup ++ (notices bup bups).flatten).getLastD _ = _
    rw [List.getLastD_cons, ← ih bup]
    by_cases hsame : bup = prev
    · rw [notice, if_pos hsame, hsame]
      rfl
    · rw [notice, if_neg hsame, List.singleton_append, List.getLastD_cons]

/-- The globals and the stack have it from the last poll. -/
theorem link_last (polls : List LinkState.Poll) :
    (LinkState.link.final LinkState.boot polls).g_basetLinkUp =
        (polls.map LinkState.Poll.bup).getLastD false ∧
      ((LinkState.link.outs LinkState.boot polls).flatMap LinkState.calls).getLastD .OnLinkDown =
        LinkState.call ((polls.map LinkState.Poll.bup).getLastD false) := by
  obtain ⟨hfinal, hcalls⟩ := LinkState.link_session polls
  constructor
  · rw [hfinal, LinkState.Session.globals_up]
    exact LinkState.session_isUp polls .never
  · rw [List.flatMap_def, hcalls, LinkState.session_outs]
    exact notices_last false _

/-- The last poll of a run is a recent one. -/
theorem last_polled {d base : Nat} (hd : d < 500) {ts : List Turn} (hp : Paced d (ts.map Turn.times))
    (hs : Starts base (ts.map Turn.times)) (hn : NoRebase base (ts.map Turn.times)) {t₀ t₁ : Turn}
    (ht₀ : t₀ ∈ ts.head?) (ht₁ : t₁ ∈ ts.getLast?)
    (hlong : t₀.times.phyCheck + (500 + 2 * d) ≤ t₁.times.set1Hz) :
    ∃ last ∈ (polled (boot base) ts).getLast?, last ∈ ts ∧
      t₁.times.set1Hz ≤ last.times.phyCheck + (500 + 2 * d) ∧
      last.times.set1Hz ≤ t₁.times.set1Hz := by
  have hquiet : loop.Along (fun s t => InRange d s t ∧ ¬ Rebases s t) (boot base) (ts.map Turn.times) :=
    loop.along_and _ _ (reads_in_range hd hp hs) hn
  have hevery : CalledEvery (500 + 2 * d) (ts.map Turn.times)
      ((loop.outs (boot base) (ts.map Turn.times)).map Calls.pollPHYs) :=
    calledEvery_of_job (by decide) hp hs (place_20Hz d)
      (job_sim 500 Times.poll20Hz St.nextPhyPoll Calls.pollPHYs
        (fun s t hq => phy_step hd hq.1 hq.2) _ (boot base) (by simp [boot]) hquiet).2
  -- some turn polls in the last window, and the last one that polls is no earlier
  obtain ⟨c, hc, hlo, -⟩ := hevery t₀.times
    (by rw [List.head?_map]; exact Option.mem_map_of_mem _ ht₀) t₁.times
    (by rw [List.getLast?_map]; exact Option.mem_map_of_mem _ ht₁)
    (t₁.times.set1Hz - (500 + 2 * d)) (by omega) (by omega)
  obtain ⟨t, ht, rfl⟩ := mem_calls.mp hc
  have hsorted := turns_sorted hp
  have hsub := polled_sublist ts (boot base)
  obtain ⟨last, hlast⟩ := Option.isSome_iff_exists.mp
    (List.getLast?_isSome.mpr (List.ne_nil_of_mem ht))
  have hmem : last ∈ ts := hsub.subset (List.mem_of_mem_getLast? hlast)
  have hwindow : t.times.phyCheck ≤ last.times.phyCheck := by
    obtain rfl | hle := le_getLast (hsorted.sublist hsub) ht hlast
    · exact Nat.le_refl _
    · exact hle.check
  have hstop : last.times.set1Hz ≤ t₁.times.set1Hz := by
    obtain rfl | hle := le_getLast hsorted hmem ht₁
    · exact Nat.le_refl _
    · exact hle.last
  exact ⟨last, hlast, hmem, by omega, hstop⟩

/-- **Fresh.** On a paced run that rebases nothing and has lasted long enough,
the globals and the stack have what the PHY showed at a moment at most
`500 + 2 * d` ticks before the end. -/
theorem link_fresh (d base : Nat) (hd : d < 500) (phy : Phy) (ts : List Turn)
    (hp : Paced d (ts.map Turn.times)) (hs : Starts base (ts.map Turn.times))
    (hread : ∀ t ∈ ts, t.Ordered) (hn : NoRebase base (ts.map Turn.times)) (t₀ t₁ : Turn)
    (ht₀ : t₀ ∈ ts.head?) (ht₁ : t₁ ∈ ts.getLast?)
    (hlong : t₀.times.phyCheck + (500 + 2 * d) ≤ t₁.times.set1Hz) :
    ∃ u, t₁.times.set1Hz ≤ u + (500 + 2 * d) ∧ u ≤ t₁.times.set1Hz ∧
      ((device phy).final (.boot base) ts).link.g_basetLinkUp = phy.up u ∧
      (told ((device phy).outs (.boot base) ts)).getLastD .OnLinkDown = LinkState.call (phy.up u) := by
  obtain ⟨last, hlast, hmem, hrecent, hend⟩ := last_polled hd hp hs hn ht₀ ht₁ hlong
  obtain ⟨hctl, hstat, hset⟩ := hread last hmem
  obtain ⟨-, -, hspan⟩ := (place_20Hz d).inside last.times (hp.ordered _ (List.mem_map_of_mem hmem))
  have hlevel : (((polled (boot base) ts).map phy.read).map LinkState.Poll.bup).getLastD false =
      phy.up last.readStat := by
    rw [List.getLastD_eq_getLast?, List.getLast?_map, List.getLast?_map, hlast]
    rfl
  obtain ⟨-, hlink, houts⟩ := device_polled phy ts (.boot base)
  obtain ⟨hup, htold⟩ := link_last ((polled (boot base) ts).map phy.read)
  simp only [Times.poll20Hz] at hspan
  refine ⟨last.readStat, by omega, by omega, ?_, ?_⟩
  · rw [hlink, ← hlevel]
    exact hup
  · rw [told, houts, ← hlevel]
    exact htold

/-- Readings and reads on one tick. -/
def Turn.at (now : Nat) : Turn := ⟨Times.at now, now, now⟩

/-- A PHY whose link comes up, at 100 Mbps. -/
def risesAt (start : Nat) : Phy := ⟨fun _ => 0x2000, fun now => if now < start then 0 else 4⟩

theorem risesAt_up {start now : Nat} (h : start ≤ now) : (risesAt start).up now = true := by
  have hstat : (risesAt start).bstat now = 4 := if_neg (Nat.not_lt.mpr h)
  rw [Phy.up, hstat]
  rfl

/-- A link that comes up at tick 300 is known to be up at tick 1600. -/
theorem link_fresh_steady :
    ((device (risesAt 300)).final (.boot 0)
      [.at 0, .at 400, .at 800, .at 1200, .at 1600]).link.g_basetLinkUp = true := by
  obtain ⟨u, hlo, -, hup, -⟩ := link_fresh 400 0 (by decide) (risesAt 300)
    [.at 0, .at 400, .at 800, .at 1200, .at 1600] (paced_steady 0 400 5)
    (show Starts 0 (steady 0 400 5) from starts_steady (Nat.le_refl 0) (by decide))
    (by
      intro t ht
      obtain ⟨now, -, rfl⟩ := List.mem_map.mp (show t ∈ [0, 400, 800, 1200, 1600].map Turn.at from ht)
      exact ⟨Nat.le_refl _, Nat.le_refl _, Nat.le_refl _⟩)
    (by unfold NoRebase; decide) (.at 0) (.at 1600) rfl rfl (by decide)
  rw [hup]
  exact risesAt_up (show 300 ≤ u by simp only [Turn.at, Times.at] at hlo; omega)

/-! ## After a rebase -/

/-- Where nothing is polled, nothing changes. -/
theorem deaf_of_unpolled (phy : Phy) (s : Device) (pre ts : List Turn)
    (hnone : polled (loop.final s.timer (pre.map Turn.times)) ts = []) :
    ((device phy).final s (pre ++ ts)).link = ((device phy).final s pre).link ∧
      told ((device phy).outs s (pre ++ ts)) = told ((device phy).outs s pre) := by
  obtain ⟨htimer, -, -⟩ := device_polled phy pre s
  obtain ⟨-, hlink, houts⟩ := device_polled phy ts ((device phy).final s pre)
  rw [htimer, hnone] at hlink houts
  rw [Machine.final_append, Machine.outs_append]
  refine ⟨hlink, ?_⟩
  rw [told, List.reduceOption_append, houts]
  exact congrArg _ (List.append_nil _)

/-- **Deaf.** After an iteration that rebases the counter, and for
`logTimerMax - 2 * d` ticks, whatever the PHY does, the globals stay as they are
and the stack is told nothing. -/
theorem link_deaf (d base : Nat) (hd : d < 500) (phy : Phy) (pre ts : List Turn) (t : Turn)
    (hp : Paced d ((pre ++ t :: ts).map Turn.times))
    (hs : Starts base ((pre ++ t :: ts).map Turn.times))
    (hreb : Rebases (loop.final (boot base) (pre.map Turn.times)) t.times)
    (hsoon : ∀ t' ∈ ts, t'.times.phyCheck + 2 * d < t.times.offset + logTimerMax.toNat) :
    ((device phy).final (.boot base) (pre ++ [t] ++ ts)).link =
        ((device phy).final (.boot base) (pre ++ [t])).link ∧
      told ((device phy).outs (.boot base) (pre ++ [t] ++ ts)) =
        told ((device phy).outs (.boot base) (pre ++ [t])) := by
  have hrange := reads_in_range hd hp hs
  rw [List.map_append, List.map_cons] at hrange
  have hafter := ((loop.along_append _ _ _ _).mp hrange).2
  refine deaf_of_unpolled phy (.boot base) (pre ++ [t]) ts ?_
  rw [List.map_append, loop.final_append]
  refine List.eq_nil_iff_forall_not_mem.mpr fun t' ht' => ?_
  have hfar := phy_starves hd _ _ _ hafter hreb _ (mem_calls.mpr ⟨t', ht', rfl⟩)
  have := hsoon t' ((polled_sublist ts _).subset ht')
  omega

/-- A link that comes up 200 ticks after the rebase is not known to be up 500 ticks later. -/
theorem link_deaf_late :
    ((device (risesAt 0xf00000c8)).final (.boot 0)
      [.at 0xefffff38, .at 0xf0000064, .at 0xf0000190, .at 0xf00002bc]).link.g_basetLinkUp = false := by
  have hrun := (link_deaf 300 0 (by decide) (risesAt 0xf00000c8) [.at 0xefffff38]
    [.at 0xf0000190, .at 0xf00002bc] (.at 0xf0000064) (paced_steady 0xefffff38 300 4)
    (show Starts 0 (steady 0xefffff38 300 4) from starts_steady (Nat.zero_le _) (by decide))
    (by unfold Rebases; decide) (by decide)).1
  exact (congrArg LinkState.St.g_basetLinkUp hrun).trans (by decide)

/-- A deadline that no reading of the counter reaches is kept, and never polled. -/
theorem polled_beyond {d : Nat} (hd : d < 500) (ts : List Turn) (s : St)
    (hr : loop.Along (InRange d) s (ts.map Turn.times))
    (hbeyond : logTimerMax.toNat + d ≤ s.nextPhyPoll.toNat) : polled s ts = [] := by
  induction ts generalizing s with
  | nil => rfl
  | cons t ts ih =>
    obtain ⟨hrange, hrest⟩ := hr
    have hspec := phy_spec hd hrange
    have ho := hrange.ordered
    have hearly : t.times.poll20Hz.check < s.nextPhyPoll.toNat + s.base := by
      have := hrange.offset; have := ho.phy; have := ho.offset
      simp only [Times.poll20Hz]; omega
    rw [Deadline.job_wait hearly] at hspec
    obtain ⟨hnext, hcall⟩ := Prod.mk.inj hspec
    have hkept : (iteration s t.times).1.nextPhyPoll.toNat = s.nextPhyPoll.toNat := by omega
    have hwait : polled s (t :: ts) = polled (iteration s t.times).1 ts := by simp [polled, hcall]
    rw [hwait]
    exact ih _ hrest (hkept ▸ hbeyond)

/-- **Dead.** A poll made while the counter has less than `500 - d` ticks to go to
`logTimerMax` is the last one ever: however long the run goes on after it, and
whatever the PHY does, the globals stay as they are and the stack is told
nothing. -/
theorem link_dead (d base : Nat) (hd : d < 500) (phy : Phy) (pre ts : List Turn) (t : Turn)
    (hp : Paced d ((pre ++ t :: ts).map Turn.times))
    (hs : Starts base ((pre ++ t :: ts).map Turn.times))
    (hpoll : (iteration (loop.final (boot base) (pre.map Turn.times)) t.times).2.pollPHYs ≠ none)
    (hlate : (loop.final (boot base) (pre.map Turn.times)).base + logTimerMax.toNat + d ≤
      t.times.phySet + 500) :
    ((device phy).final (.boot base) (pre ++ [t] ++ ts)).link =
        ((device phy).final (.boot base) (pre ++ [t])).link ∧
      told ((device phy).outs (.boot base) (pre ++ [t] ++ ts)) =
        told ((device phy).outs (.boot base) (pre ++ [t])) := by
  have hrange := reads_in_range hd hp hs
  rw [List.map_append, List.map_cons] at hrange
  obtain ⟨hone, hafter⟩ := ((loop.along_append _ _ _ _).mp hrange).2
  refine deaf_of_unpolled phy (.boot base) (pre ++ [t]) ts ?_
  rw [List.map_append, loop.final_append]
  refine polled_beyond hd ts _ hafter ?_
  show _ ≤ (iteration (loop.final (boot base) (pre.map Turn.times)) t.times).1.nextPhyPoll.toNat
  generalize loop.final (boot base) (pre.map Turn.times) = s at *
  have hspec := phy_spec hd hone
  by_cases hdue : s.nextPhyPoll.toNat + s.base ≤ t.times.poll20Hz.check
  · rw [Deadline.job_due hdue] at hspec
    have hset : (iteration s t.times).1.nextPhyPoll.toNat + s.base = t.times.phySet + 500 :=
      (Prod.mk.inj hspec).1
    omega
  · rw [Deadline.job_wait (Nat.not_le.mp hdue)] at hspec
    exact absurd (Prod.mk.inj hspec).2 hpoll

/-- A poll 300 ticks before `logTimerMax`, and the link comes up then: it is not
known to be up after 100 million more iterations, more than eleven days. -/
theorem link_dead_days :
    ((device (risesAt 0xf0000000)).final (.boot 0)
      ([] ++ [.at 0xeffffed4] ++ (List.range 100000000).map fun i => .at (0xefffff38 + 100 * i))).link =
        LinkState.boot := by
  -- for any number of iterations, so that none are computed
  have hrun (n : Nat) : ((device (risesAt 0xf0000000)).final (.boot 0) ([] ++ [.at 0xeffffed4] ++
      (List.range n).map fun i => .at (0xefffff38 + 100 * i))).link = LinkState.boot := by
    have htimes : (([] ++ Turn.at 0xeffffed4 ::
        (List.range n).map fun i => Turn.at (0xefffff38 + 100 * i)).map Turn.times) =
          steady 0xeffffed4 100 (1 + n) := by
      rw [steady_add, List.nil_append, List.map_cons, List.map_map]
      rfl
    refine (link_dead 100 0 (by decide) (risesAt 0xf0000000) [] _ (.at 0xeffffed4) ?_ ?_ (by decide)
      (by decide)).1.trans (by decide)
    · rw [htimes]
      exact paced_steady 0xeffffed4 100 (1 + n)
    · rw [htimes]
      exact starts_steady (Nat.zero_le _) (by decide)
  exact hrun 100000000

end DevBoards.MainLoop
