import DevBoards.RelayMux.Firmware

/-!
# Relays, LEDs and `m_select` agree

* `setRelay_spec`: `SetRelay` moves one relay, with one coil energised at a
  time and none before or after.
* `booted_spec`: initialisation ends with every channel on side A.
* `mux_agrees`: over any run of SCPI calls, at most one coil is energised at
  every step, and between calls each channel's `m_select`, relay and LEDs say
  the same, as does the answer to a query.
-/
namespace DevBoards.RelayMux

/-- The side `m_select` stands for. -/
def sideOf (sel : Bool) : Side := if sel then .b else .a

/-- LED A is lit and LED B dark exactly on side A, the reverse on side B. -/
structure Agrees (s : St) (n : Fin 4) : Prop where
  select : s.select n = true ↔ s.relay n = .b
  sideA : s.lit (muxledA n) = true ∧ s.lit (muxledB n) = false ↔ s.relay n = .a
  sideB : s.lit (muxledB n) = true ∧ s.lit (muxledA n) = false ↔ s.relay n = .b

/-- The line that names a side. -/
def line : Side → String
  | .a => "A\n"
  | .b => "B\n"

/-! ## Coils -/

/-- Between calls: no coil is energised and the expander is out of reset. -/
structure Ready (s : St) : Prop where
  coils : NoCoil s
  reset : s.gpio expanderReset = true

variable {s : St} {n : Fin 4} {side side' : Side} {sel : Bool}

theorem NoCoil.atMostOne (h : NoCoil s) : AtMostOneCoil s := fun side n _ _ hon _ => by
  rw [h side n] at hon; cases hon

theorem settle_idle {g : Levels} (r : Fin 4 → Side) (h : ∀ side n, g (coil side n) = false) :
    settle g r = r := by
  funext n
  simp [settle, h]

theorem exec_sleep (ticks : Nat) : (exec s (.sleep ticks)).1 = s := rfl

theorem exec_gpio {pin : Pin} {level : Bool} (h : s.gpio.drive pin level expanderReset = true) :
    (exec s (.gpio pin level)).1 =
      { s with gpio := s.gpio.drive pin level,
               relay := settle (s.gpio.drive pin level) s.relay } := by
  unfold exec
  simp only [h, if_true]

/-- A write of the level the pin has changes nothing once the relays are settled. -/
theorem exec_gpio_same {pin : Pin} {level : Bool} (hlevel : s.gpio pin = level)
    (hreset : s.gpio expanderReset = true) (hsettle : settle s.gpio s.relay = s.relay) :
    (exec s (.gpio pin level)).1 = s := by
  have hg : s.gpio.drive pin level = s.gpio := Function.update_eq_self_iff.mpr hlevel.symm
  rw [exec_gpio (by rw [hg]; exact hreset), hg, hsettle]

/-- Releasing a coil when all are released does nothing. -/
theorem exec_low (h : Ready s) : (exec s (.gpio (coil side n) false)).1 = s :=
  exec_gpio_same (h.coils side n) h.reset (settle_idle s.relay h.coils)

/-- The coil of one side of one channel is energised. -/
def pulsed (s : St) (n : Fin 4) (side : Side) : St :=
  { s with gpio := s.gpio.drive (coil side n) true, relay := Function.update s.relay n side }

theorem pulsed_energised (h : NoCoil s) (side' : Side) (m : Fin 4) :
    (pulsed s n side).energised side' m = decide (side' = side ∧ m = n) := by
  show s.gpio.drive (coil side n) true (coil side' m) = _
  by_cases hc : coil side' m = coil side n
  · rw [hc, Levels.drive_same, decide_eq_true (coil_inj hc)]
  · have hne : ¬ (side' = side ∧ m = n) := fun ⟨h1, h2⟩ => hc (h1 ▸ h2 ▸ rfl)
    rw [Levels.drive_ne _ _ hc, decide_eq_false hne]
    exact h side' m

theorem pulsed_atMostOne (h : NoCoil s) : AtMostOneCoil (pulsed s n side) := by
  intro side₁ n₁ side₂ n₂ h₁ h₂
  rw [pulsed_energised h, decide_eq_true_iff] at h₁ h₂
  exact ⟨h₁.1.trans h₂.1.symm, h₁.2.trans h₂.2.symm⟩

theorem pulsed_reset (h : Ready s) : (pulsed s n side).gpio expanderReset = true :=
  (Levels.drive_ne _ _ (coil_ne_reset side n)).trans h.reset

/-- A latching relay follows the one coil that is energised. -/
theorem settle_pulsed (h : NoCoil s) (r : Fin 4 → Side) :
    settle (pulsed s n side).gpio r = Function.update r n side := by
  funext m
  have hon : ∀ side', (pulsed s n side).gpio (coil side' m) = decide (side' = side ∧ m = n) :=
    fun side' => pulsed_energised h side' m
  unfold settle
  rw [hon, hon, Function.update_apply]
  by_cases hm : m = n <;> cases side <;> simp [hm]

theorem exec_high (h : Ready s) : (exec s (.gpio (coil side n) true)).1 = pulsed s n side := by
  rw [exec_gpio (pulsed_reset h)]
  exact congrArg (fun r => { s with gpio := s.gpio.drive (coil side n) true, relay := r })
    (settle_pulsed h.coils s.relay)

theorem exec_low_same (h : Ready s) : (exec (pulsed s n side) (.gpio (coil side n) false)).1 =
    { s with relay := Function.update s.relay n side } := by
  have hg : (pulsed s n side).gpio.drive (coil side n) false = s.gpio :=
    (Function.update_idem ..).trans (Function.update_eq_self_iff.mpr (h.coils side n).symm)
  rw [exec_gpio (by rw [hg]; exact h.reset), hg, settle_idle _ h.coils]
  rfl

theorem exec_low_other (h : Ready s) (hside : side' ≠ side) :
    (exec (pulsed s n side) (.gpio (coil side' n) false)).1 = pulsed s n side := by
  have hoff : (pulsed s n side).gpio (coil side' n) = false :=
    (pulsed_energised h.coils side' n).trans (decide_eq_false fun hs => hside hs.1)
  refine exec_gpio_same hoff (pulsed_reset h) ?_
  rw [settle_pulsed h.coils]
  exact Function.update_idem ..

/-- **SetRelay** moves one relay, and leaves no coil energised. -/
theorem setRelay_spec (h : Ready s) (n : Fin 4) (sel : Bool) :
    board.final s (setRelay n sel) = { s with relay := Function.update s.relay n (sideOf sel) } ∧
      board.Along (fun s _ => AtMostOneCoil s) s (setRelay n sel) := by
  have hidle := h.coils.atMostOne
  have hpulse : AtMostOneCoil (pulsed s n (sideOf sel)) := pulsed_atMostOne h.coils
  have hready : Ready { s with relay := Function.update s.relay n (sideOf sel) } :=
    ⟨h.coils, h.reset⟩
  cases sel with
  | false =>
    have hops : setRelay n false = [.gpio (coil .a n) true, .sleep 100, .gpio (coil .a n) false,
      .gpio (coil .b n) false] := rfl
    simp only [hops, Machine.final_cons, Machine.final_nil, Machine.Along, board, exec_high h,
      exec_sleep, exec_low_same h]
    exact ⟨exec_low hready, hidle, hpulse, hpulse, hready.coils.atMostOne, trivial⟩
  | true =>
    have hops : setRelay n true = [.gpio (coil .b n) true, .sleep 100, .gpio (coil .a n) false,
      .gpio (coil .b n) false] := rfl
    simp only [hops, Machine.final_cons, Machine.final_nil, Machine.Along, board, exec_high h,
      exec_sleep, exec_low_other h (show Side.a ≠ .b by decide), exec_low_same h]
    exact ⟨rfl, hidle, hpulse, hpulse, hpulse, trivial⟩

/-! ## One channel -/

/-- The two LED channels of a relay. -/
def led : Side → Fin 4 → Fin 24
  | .a => muxledA
  | .b => muxledB

theorem led_inj {n' : Fin 4} (h : led side n = led side' n') : side = side' ∧ n = n' := by
  revert h
  cases side <;> cases side' <;> revert n n' <;> decide

/-- The LED channels of `n` are outputs and show `sel`. -/
structure LedsShow (s : St) (n : Fin 4) (sel : Bool) : Prop where
  output : ∀ side, s.expander.isInput (led side n) = false
  level : ∀ side, s.expander.output (led side n) = decide (side = sideOf sel)

/-- Relay and LEDs of `n` follow `m_select`. -/
structure Follows (s : St) (n : Fin 4) : Prop where
  relay : s.relay n = sideOf (s.select n)
  leds : LedsShow s n (s.select n)

theorem Follows.agrees (h : Follows s n) : Agrees s n := by
  have hA : s.lit (muxledA n) = decide (Side.a = sideOf (s.select n)) := by
    show (!s.expander.isInput (led .a n) && s.expander.output (led .a n)) = _
    rw [h.leds.output, h.leds.level]; rfl
  have hB : s.lit (muxledB n) = decide (Side.b = sideOf (s.select n)) := by
    show (!s.expander.isInput (led .b n) && s.expander.output (led .b n)) = _
    rw [h.leds.output, h.leds.level]; rfl
  refine ⟨?_, ?_, ?_⟩
  · rw [h.relay]; cases s.select n <;> decide
  · rw [hA, hB, h.relay]; cases s.select n <;> decide
  · rw [hA, hB, h.relay]; cases s.select n <;> decide

/-- Writing both LED channels of one relay. -/
theorem update_leds (f : Fin 24 → Bool) (n m : Fin 4) (x y : Bool) (side : Side) :
    Function.update (Function.update f (muxledA n) x) (muxledB n) y (led side m) =
      if m = n then (if side = .a then x else y) else f (led side m) := by
  change Function.update (Function.update f (led .a n) x) (led .b n) y (led side m) = _
  rw [Function.update_apply, Function.update_apply]
  by_cases hm : m = n
  · subst hm
    cases side
    · rw [if_neg fun h => absurd (led_inj h).1 (by decide)]; simp
    · simp
  · rw [if_neg fun h => hm (led_inj h).2, if_neg fun h => hm (led_inj h).2, if_neg hm]

/-! ## Initialisation -/

/-- The state once the expander is out of reset. -/
def released (relay : Fin 4 → Side) (select : Fin 4 → Bool) : St :=
  ⟨Levels.drive (fun _ => false) expanderReset true, .cleared, relay, select⟩

theorem ready_released (relay : Fin 4 → Side) (select : Fin 4 → Bool) :
    Ready (released relay select) :=
  ⟨fun side n => Levels.drive_ne (fun _ => false) true (coil_ne_reset side n).symm,
    Levels.drive_same (fun _ => false) expanderReset true⟩

theorem initGPIOs_spec (e : Expander) (r : Fin 4 → Side) (m : Fin 4 → Bool) :
    board.final (powerOn e r m) initGPIOs = released r m ∧
      board.Along (fun s _ => AtMostOneCoil s) (powerOn e r m) initGPIOs := by
  have hoff : NoCoil (powerOn e r m) := fun _ _ => rfl
  have hready := ready_released r m
  have hlow : (exec (powerOn e r m) (.gpio expanderReset false)).1 = powerOn .cleared r m := by
    have hg : Levels.drive (fun _ => false) expanderReset false = fun _ => false :=
      Function.update_eq_self_iff.mpr rfl
    unfold exec powerOn
    have hidle : settle (fun _ => false) r = r := settle_idle r fun _ _ => rfl
    simp only [hg, hidle]
    rfl
  have hhigh : (exec (powerOn .cleared r m) (.gpio expanderReset true)).1 = released r m := by
    rw [exec_gpio (Levels.drive_same ..)]
    exact congrArg (fun r => (⟨_, _, r, m⟩ : St)) (settle_idle r hready.coils)
  have hclear := board.loop_inv (Q := fun s _ => AtMostOneCoil s) (fun s => s = released r m)
    (fun _ _ => True) (fun i => [.gpio (relayA i) false, .gpio (relayB i) false])
    (fun i s hs => by
      subst hs
      have hA : (exec (released r m) (.gpio (relayA i) false)).1 = released r m :=
        show (exec _ (.gpio (coil .a i) false)).1 = _ from exec_low hready
      have hB : (exec (released r m) (.gpio (relayB i) false)).1 = released r m :=
        show (exec _ (.gpio (coil .b i) false)).1 = _ from exec_low hready
      have hidle := hready.coils.atMostOne
      simp only [Machine.final_cons, Machine.final_nil, Machine.Along, board, hA, hB]
      exact ⟨⟨hidle, hidle, trivial⟩, trivial, trivial, fun _ _ => trivial⟩)
    (List.finRange 4) _ rfl
  unfold initGPIOs forEach
  rw [Machine.final_append, Machine.along_append]
  simp only [Machine.final_cons, Machine.final_nil, Machine.Along, board, hlow, hhigh, exec_sleep]
  have hidle := hoff.atMostOne
  exact ⟨hclear.2.1, ⟨hidle, hidle, hidle, hready.coils.atMostOne, trivial⟩, hclear.1⟩

theorem initI2C_spec (h : Ready s) :
    board.Along (fun s _ => AtMostOneCoil s) s initI2C ∧ Ready (board.final s initI2C) ∧
      ∀ n, LedsShow (board.final s initI2C) n false := by
  obtain ⟨h1, h2, h3, -⟩ := board.loop_inv (Q := fun s _ => AtMostOneCoil s) Ready
    (fun n s => LedsShow s n false)
    (fun i => [.setDirection (muxledA i) false, .led (muxledA i) true,
      .setDirection (muxledB i) false, .led (muxledB i) false])
    (fun i s hs => by
      have hidle := hs.coils.atMostOne
      refine ⟨⟨hidle, hidle, hidle, hidle, trivial⟩, ⟨hs.coils, hs.reset⟩, ⟨?_, ?_⟩,
        fun m hm => ⟨?_, ?_⟩⟩
      · intro side
        exact (update_leds s.expander.isInput i i false false side).trans (by simp)
      · intro side
        refine (update_leds s.expander.output i i true false side).trans ?_
        cases side <;> simp [sideOf]
      · intro side
        refine (update_leds s.expander.isInput i m false false side).trans ?_
        rw [hm.output side]; simp
      · intro side
        refine (update_leds s.expander.output i m true false side).trans ?_
        rw [hm.level side]; cases side <;> simp [sideOf])
    (List.finRange 4) s h
  exact ⟨h1, h2, fun n => h3 n (List.mem_finRange n)⟩

theorem initRelays_spec (h : Ready s) (hleds : ∀ n, LedsShow s n false) :
    board.Along (fun s _ => AtMostOneCoil s) s initRelays ∧ Ready (board.final s initRelays) ∧
      (∀ n, LedsShow (board.final s initRelays) n false) ∧
        ∀ n, (board.final s initRelays).relay n = .a := by
  obtain ⟨h1, ⟨h2, h3⟩, h4, -⟩ := board.loop_inv (Q := fun s _ => AtMostOneCoil s)
    (fun s => Ready s ∧ ∀ n, LedsShow s n false) (fun n s => s.relay n = .a)
    (fun i => setRelay i false)
    (fun i s hs => by
      obtain ⟨hfin, halong⟩ := setRelay_spec hs.1 i false
      rw [hfin]
      refine ⟨halong, ⟨⟨hs.1.coils, hs.1.reset⟩, fun n => ⟨(hs.2 n).output, (hs.2 n).level⟩⟩,
        ?_, ?_⟩
      · exact Function.update_self ..
      · intro m hm
        exact (Function.update_apply ..).trans (by rw [hm]; exact ite_self _))
    (List.finRange 4) s ⟨h, hleds⟩
  exact ⟨h1, h2, h3, fun n => h4 n (List.mem_finRange n)⟩

theorem appInit_spec (h : Ready s) (hleds : ∀ n, LedsShow s n false)
    (hrelay : ∀ n, s.relay n = .a) :
    board.Along (fun s _ => AtMostOneCoil s) s appInit ∧ Ready (board.final s appInit) ∧
      ∀ n, Follows (board.final s appInit) n := by
  obtain ⟨h1, ⟨h2, h3, h4⟩, h5, -⟩ := board.loop_inv (Q := fun s _ => AtMostOneCoil s)
    (fun s => Ready s ∧ (∀ n, LedsShow s n false) ∧ ∀ n, s.relay n = .a)
    (fun n s => s.select n = false) (fun i => [.select i false])
    (fun i s hs => by
      obtain ⟨hready, hleds, hrelay⟩ := hs
      refine ⟨⟨hready.coils.atMostOne, trivial⟩,
        ⟨⟨hready.coils, hready.reset⟩, fun n => ⟨(hleds n).output, (hleds n).level⟩, hrelay⟩,
        ?_, ?_⟩
      · exact Function.update_self ..
      · intro m hm
        exact (Function.update_apply ..).trans (by rw [hm]; exact ite_self _))
    (List.finRange 4) s ⟨h, hleds, hrelay⟩
  refine ⟨h1, h2, ?_⟩
  intro n
  have hsel : (board.final s appInit).select n = false := h5 n (List.mem_finRange n)
  exact ⟨by rw [hsel]; exact h4 n, by rw [hsel]; exact h3 n⟩

/-- **Boot** ends with every channel on side A. -/
theorem booted_spec (e : Expander) (r : Fin 4 → Side) (m : Fin 4 → Bool) :
    board.Along (fun s _ => AtMostOneCoil s) (powerOn e r m) bspInit ∧
      Ready (board.final (powerOn e r m) bspInit) ∧
        ∀ n, Follows (board.final (powerOn e r m) bspInit) n := by
  obtain ⟨hgpio, h1⟩ := initGPIOs_spec e r m
  obtain ⟨h2, hready, hleds⟩ := initI2C_spec (ready_released r m)
  obtain ⟨h3, hready, hleds, hrelay⟩ := initRelays_spec hready hleds
  obtain ⟨h4, hready, hfollows⟩ := appInit_spec hready hleds hrelay
  unfold bspInit
  simp only [Machine.along_append, Machine.final_append, hgpio]
  exact ⟨⟨⟨⟨h1, h2⟩, h3⟩, h4⟩, hready, hfollows⟩

/-! ## Calls -/

/-- The state after a command that selects `sel` on channel `n`. -/
def switched (s : St) (n : Fin 4) (sel : Bool) : St where
  gpio := s.gpio
  expander := { s.expander with
    output := Function.update (Function.update s.expander.output (muxledA n) (sel == false))
      (muxledB n) (sel == true) }
  relay := Function.update s.relay n (sideOf sel)
  select := Function.update s.select n sel

theorem switched_select (n m : Fin 4) :
    (switched s n sel).select m = if m = n then sel else s.select m := Function.update_apply ..

theorem switched_relay (n m : Fin 4) :
    (switched s n sel).relay m = if m = n then sideOf sel else s.relay m := Function.update_apply ..

theorem switched_output (n m : Fin 4) (side : Side) :
    (switched s n sel).expander.output (led side m) =
      if m = n then decide (side = sideOf sel) else s.expander.output (led side m) := by
  refine (update_leds s.expander.output n m _ _ side).trans ?_
  cases side <;> cases sel <;> rfl

theorem switched_follows (h : ∀ m, Follows s m) (n m : Fin 4) (sel : Bool) :
    Follows (switched s n sel) m := by
  refine ⟨?_, (h m).leds.output, ?_⟩
  · rw [switched_relay, switched_select, (h m).relay]
    split <;> rfl
  · intro side
    rw [switched_output, switched_select, (h m).leds.level]
    split <;> rfl

/-- What holds between calls. -/
structure Inv (s : St) : Prop where
  ready : Ready s
  follows : ∀ n, Follows s n

theorem onCommand_spec (h : Inv s) (subject command args : CString) :
    board.Along (fun s _ => AtMostOneCoil s) s (onCommand subject command args) ∧
      Inv (board.final s (onCommand subject command args)) := by
  rcases onCommand_cases subject command args with hops | ⟨n, sel, hops⟩
  · rw [hops]
    exact ⟨trivial, h⟩
  · have hready : Ready { s with select := Function.update s.select n sel } :=
      ⟨h.ready.coils, h.ready.reset⟩
    obtain ⟨hfin, halong⟩ := setRelay_spec hready n sel
    have hidle := h.ready.coils.atMostOne
    rw [hops]
    simp only [Machine.along_append, Machine.final_append]
    have hsel : board.final s [.select n sel] =
      { s with select := Function.update s.select n sel } := rfl
    rw [hsel, hfin]
    exact ⟨⟨⟨⟨hidle, trivial⟩, halong⟩, hidle, hidle, trivial⟩, ⟨h.ready.coils, h.ready.reset⟩,
      fun m => switched_follows h.follows n m sel⟩

theorem call_spec (h : Inv s) (c : Call) :
    board.Along (fun s _ => AtMostOneCoil s) s (c.ops s) ∧ Inv (mux.step s c).1 := by
  cases c with
  | onCommand subject command args => exact onCommand_spec h subject command args
  | onQuery subject command =>
    show board.Along _ s (onQuery s subject command) ∧ Inv (board.final s (onQuery s subject command))
    rcases onQuery_cases s subject command with hops | ⟨text, hops⟩
    · rw [hops]
      exact ⟨trivial, h⟩
    · rw [hops]
      exact ⟨⟨h.ready.coils.atMostOne, trivial⟩, h⟩

theorem calls_spec (calls : List Call) (h : Inv s) :
    mux.Along (fun s c => NoCoil s ∧ board.Along (fun s _ => AtMostOneCoil s) s (c.ops s)) s calls ∧
      Inv (mux.final s calls) := by
  induction calls generalizing s with
  | nil => exact ⟨trivial, h⟩
  | cons c calls ih =>
    obtain ⟨hc, hinv⟩ := call_spec h c
    obtain ⟨hcs, hfin⟩ := ih hinv
    exact ⟨⟨⟨h.ready.coils, hc⟩, hcs⟩, hfin⟩

/-- The answer to a query names the relay's position. -/
theorem query_spec (h : Follows s n) :
    (mux.step s (.onQuery (chanSubject n) MUX)).2 = [line (s.relay n)] := by
  obtain ⟨hstr, hchan⟩ := chanSubject_spec n
  have hops : onQuery s (chanSubject n) MUX = [.print (if s.select n then "B\n" else "A\n")] := by
    unfold onQuery
    have hmux : ¬ CString.strcmp MUX MUX ≠ 0 :=
      not_not.mpr ((CString.strcmp_eq_zero_iff _ _).mpr rfl)
    rw [if_pos hstr, if_neg hmux, hchan]
  show (board.outs s (onQuery s (chanSubject n) MUX)).reduceOption = _
  rw [hops, h.relay]
  cases s.select n <;> rfl

/-- **Agreement over whole runs**, from power-on and for any calls: at most
one coil is energised at every step, and between calls none; each channel's
`m_select`, relay and LEDs agree; a query of it names the relay's position. -/
theorem mux_agrees (e : Expander) (r : Fin 4 → Side) (m : Fin 4 → Bool) (calls : List Call) :
    let booted := board.final (powerOn e r m) bspInit
    let s := mux.final booted calls
    board.Along (fun s _ => AtMostOneCoil s) (powerOn e r m) bspInit ∧
      mux.Along (fun s c => NoCoil s ∧ board.Along (fun s _ => AtMostOneCoil s) s (c.ops s)) booted calls ∧
      NoCoil s ∧ (∀ n, Agrees s n) ∧
      ∀ n, (mux.step s (.onQuery (chanSubject n) MUX)).2 = [line (s.relay n)] := by
  obtain ⟨hboot, hready, hfollows⟩ := booted_spec e r m
  obtain ⟨hcalls, hinv⟩ := calls_spec calls ⟨hready, hfollows⟩
  exact ⟨hboot, hcalls, hinv.ready.coils, fun n => (hinv.follows n).agrees,
    fun n => query_spec (hinv.follows n)⟩

end DevBoards.RelayMux
