import DevBoards.Tree.LEDTask

/-!
# What the christmas tree remembers

The CLI (christmas-tree/firmware/TreeCLISessionContext.cpp) changes the
pattern, commits it to flash, wipes the flash and reboots. The key-value store
is outside the repository: a `MicroKvs` is any that reads back what it stores.

* `shows_iff`: the mode shown is what can be seen of the LEDs.
* `commit_stores`, `zeroize_forgets`: what the two write.
* `quiet_keeps`: nothing else writes.
* `pattern_persists`: over any history, a reboot brings back the pattern of
  the last commit since the last wipe.
-/
namespace DevBoards.Tree

/-! ## The store -/

/-- microkvs, with `κ` the contents of the flash. A value equal to the default
is not written where none is stored. -/
structure MicroKvs (κ : Type) where
  object : κ → String → Option UInt8
  /-- `ReadObject(defaultValue, name)` -/
  readObject : κ → UInt8 → String → UInt8
  /-- `StoreObjectIfNecessary(currentValue, defaultValue, name)` -/
  storeObjectIfNecessary : κ → UInt8 → UInt8 → String → κ
  wipeAll : κ → κ
  read_eq : ∀ k d name, readObject k d name = (object k name).getD d
  store_same : ∀ k v d name, readObject k d name = v → storeObjectIfNecessary k v d name = k
  store_other : ∀ k v d name, readObject k d name ≠ v →
    object (storeObjectIfNecessary k v d name) name = some v
  wipe : ∀ k name, object (wipeAll k) name = none

/-- A store that keeps a table of its objects. -/
def MicroKvs.table : MicroKvs (String → Option UInt8) where
  object k name := k name
  readObject k d name := (k name).getD d
  storeObjectIfNecessary k v d name :=
    if (k name).getD d = v then k else Function.update k name (some v)
  wipeAll _ _ := none
  read_eq _ _ _ := rfl
  store_same _ _ _ _ h := if_pos h
  store_other _ _ _ name h := (congrFun (if_neg h) name).trans (Function.update_self ..)
  wipe _ _ := rfl

theorem MicroKvs.read_store {κ : Type} (kvs : MicroKvs κ) (k : κ) (v d : UInt8) (name : String) :
    kvs.readObject (kvs.storeObjectIfNecessary k v d name) d name = v := by
  by_cases h : kvs.readObject k d name = v
  · rw [kvs.store_same k v d name h, h]
  · rw [kvs.read_eq, kvs.store_other k v d name h]
    rfl

/-! ## The firmware -/

/-- mirrors christmas-tree/firmware/LEDTask.cpp:32 -/
def g_patternName : String := "pat"

/-- The second word of `pattern`, `invalid` for any that is not a keyword.
mirrors christmas-tree/firmware/TreeCLISessionContext.cpp:55-62 -/
inductive Keyword | green | random | red | redgreen | invalid
deriving DecidableEq, Repr

inductive Event
  | pattern (keyword : Keyword)
  | commit
  | zeroize
  | reload
  /-- any other first word -/
  | unrecognized
  | onTimer
deriving DecidableEq, Repr

structure State (κ : Type) where
  flash : κ
  task : LEDTask

variable {κ : Type} (kvs : MicroKvs κ) (σ : EvalOrder)

/-- `static LEDTask ledTask`, constructed at every boot. -/
def boot (flash : κ) : State κ :=
  ⟨flash, construct (fun _ => 0) (kvs.readObject flash 0 g_patternName)⟩

/-- mirrors christmas-tree/firmware/TreeCLISessionContext.cpp:122-145 -/
def onPattern (t : LEDTask) : Keyword → LEDTask
  | .green => { t with pattern := PATTERN_GREEN }
  | .random => { t with pattern := PATTERN_RANDOM }
  | .red => { t with pattern := PATTERN_RED }
  | .redgreen => { t with pattern := PATTERN_RED_GREEN }
  | .invalid => t

/-- mirrors christmas-tree/firmware/TreeCLISessionContext.cpp:150-153 -/
def onCommit (s : State κ) : State κ :=
  { s with flash := kvs.storeObjectIfNecessary s.flash s.task.pattern 0 g_patternName }

/-- mirrors christmas-tree/firmware/TreeCLISessionContext.cpp:93-117 -/
def step (s : State κ) : Event → State κ × Option Shown
  | .pattern keyword => ({ s with task := onPattern s.task keyword }, none)
  | .commit => (onCommit kvs s, none)
  | .zeroize => ({ s with flash := kvs.wipeAll s.flash }, none)
  | .reload => (boot kvs s.flash, none)
  | .unrecognized => (s, none)
  | .onTimer => ({ s with task := (onTimer σ s.task).1 }, some (onTimer σ s.task).2)

def tree : Machine (State κ) Event (Option Shown) := ⟨step kvs σ⟩

/-- The mode that an `OnTimer` now would show. -/
def State.shows (s : State κ) : Mode := (onTimer σ s.task).2.mode

/-! ## What is stored -/

/-- The mode that a reboot now would bring up. -/
def State.saved (s : State κ) : Mode := mode (kvs.readObject s.flash 0 g_patternName)

variable {kvs σ}

/-- The mode is what the LEDs show: the colours that an `OnTimer` now would put
out are those of this mode and of no other. -/
theorem shows_iff (s : State κ) (m : Mode) : s.shows σ = m ↔
    (onTimer σ s.task).2.rgbColors = (m.display σ s.task.prbs).rgbColors := by
  have hmode : s.shows σ = mode s.task.pattern := rfl
  rw [hmode, onTimer_display]
  exact ⟨fun h => by rw [h], mode_of_colors⟩

theorem reload_shows (s : State κ) : ((tree kvs σ).step s .reload).1.shows σ = s.saved kvs := rfl

/-- **A commit** saves what is shown. -/
theorem commit_stores (s : State κ) : ((tree kvs σ).step s .commit).1.saved kvs = s.shows σ :=
  congrArg mode (kvs.read_store s.flash s.task.pattern 0 g_patternName)

/-- **A wipe** saves the random mode. -/
theorem zeroize_forgets (s : State κ) : ((tree kvs σ).step s .zeroize).1.saved kvs = .random := by
  show mode (kvs.readObject (kvs.wipeAll s.flash) 0 g_patternName) = _
  rw [kvs.read_eq, kvs.wipe]
  rfl

/-- No commit and no wipe. -/
def Quiet (es : List Event) : Prop := ∀ e ∈ es, e ≠ .commit ∧ e ≠ .zeroize

theorem quiet_step (s : State κ) {e : Event} (h : e ≠ .commit ∧ e ≠ .zeroize) :
    ((tree kvs σ).step s e).1.saved kvs = s.saved kvs := by
  cases e with
  | commit => exact absurd rfl h.1
  | zeroize => exact absurd rfl h.2
  | pattern | reload | unrecognized | onTimer => rfl

theorem quiet_keeps (es : List Event) (s : State κ) (h : Quiet es) :
    ((tree kvs σ).final s es).saved kvs = s.saved kvs := by
  induction es generalizing s with
  | nil => rfl
  | cons e es ih =>
    rw [Machine.final_cons, ih _ fun e' he' => h e' (List.mem_cons_of_mem e he')]
    exact quiet_step s (h e (List.mem_cons_self ..))

/-- After `before` came `e`, and then no commit and no wipe. -/
def Last (e : Event) (before es : List Event) : Prop :=
  ∃ after : List Event, es = before ++ e :: after ∧ Quiet after

/-- Every history has a last commit or wipe, or neither. -/
theorem last_cases (es : List Event) :
    Quiet es ∨ (∃ before, Last .commit before es) ∨ ∃ before, Last .zeroize before es := by
  induction es with
  | nil => exact .inl fun e he => absurd he List.not_mem_nil
  | cons e es ih =>
    rcases ih with hquiet | ⟨before, after, rfl, hquiet⟩ | ⟨before, after, rfl, hquiet⟩
    · by_cases hc : e = .commit
      · exact .inr (.inl ⟨[], es, by rw [hc]; rfl, hquiet⟩)
      · by_cases hz : e = .zeroize
        · exact .inr (.inr ⟨[], es, by rw [hz]; rfl, hquiet⟩)
        · refine .inl fun e' he' => ?_
          rcases List.mem_cons.mp he' with rfl | he'
          · exact ⟨hc, hz⟩
          · exact hquiet e' he'
    · exact .inr (.inl ⟨e :: before, after, rfl, hquiet⟩)
    · exact .inr (.inr ⟨e :: before, after, rfl, hquiet⟩)

/-- What a commit or a wipe saves stays saved while no other comes. -/
theorem saved_last {e : Event} {before es : List Event} (h : Last e before es) (s : State κ) :
    ((tree kvs σ).final s es).saved kvs =
      ((tree kvs σ).step ((tree kvs σ).final s before) e).1.saved kvs := by
  obtain ⟨after, rfl, hquiet⟩ := h
  rw [Machine.final_append, Machine.final_cons, quiet_keeps _ _ hquiet]

/-- The mode that an `OnTimer` would show after a history from power-on. -/
def now (kvs : MicroKvs κ) (σ : EvalOrder) (flash : κ) (es : List Event) : Mode :=
  ((tree kvs σ).final (boot kvs flash) es).shows σ

theorem now_append (flash : κ) (es : List Event) (e : Event) : now kvs σ flash (es ++ [e]) =
    ((tree kvs σ).step ((tree kvs σ).final (boot kvs flash) es) e).1.shows σ := by
  unfold now
  rw [Machine.final_append]
  rfl

theorem now_reload (flash : κ) (es : List Event) :
    now kvs σ flash (es ++ [Event.reload]) = ((tree kvs σ).final (boot kvs flash) es).saved kvs :=
  (now_append flash es .reload).trans (reload_shows _)

/-- **The pattern persists.** After any history from power-on, a reload brings
up the mode shown at the last commit, if no wipe came after it; the random one,
if a wipe came last; and the one of the byte stored at first, if there was
neither. A commit or a wipe does not change the mode shown. -/
theorem pattern_persists (kvs : MicroKvs κ) (σ : EvalOrder) (flash : κ) (es : List Event) :
    (∀ before, Last .commit before es →
        now kvs σ flash (es ++ [Event.reload]) = now kvs σ flash before) ∧
      (∀ before, Last .zeroize before es → now kvs σ flash (es ++ [Event.reload]) = .random) ∧
      (Quiet es → now kvs σ flash (es ++ [Event.reload]) =
        mode ((kvs.object flash g_patternName).getD 0)) ∧
      (Quiet es ∨ (∃ before, Last .commit before es) ∨ ∃ before, Last .zeroize before es) ∧
      now kvs σ flash (es ++ [Event.commit]) = now kvs σ flash es ∧
      now kvs σ flash (es ++ [Event.zeroize]) = now kvs σ flash es := by
  refine ⟨?_, ?_, ?_, last_cases es, now_append flash es .commit, now_append flash es .zeroize⟩
  · intro before hlast
    rw [now_reload, saved_last hlast]
    exact commit_stores _
  · intro before hlast
    rw [now_reload, saved_last hlast]
    exact zeroize_forgets _
  · intro hquiet
    rw [now_reload, quiet_keeps _ _ hquiet, ← kvs.read_eq]
    rfl

def greenThenRed : List Event := [.pattern .green, .commit, .pattern .red]

/-- Green is committed, red is not: the reboot of a blank board shows green. -/
theorem pattern_persists_table :
    now .table ⟨Equiv.refl _, Equiv.refl _, fun _ => Equiv.refl _⟩ (fun _ => none)
      (greenThenRed ++ [Event.reload]) = .green := by
  have hlast : Last .commit [.pattern .green] greenThenRed :=
    ⟨[.pattern .red], rfl, by unfold Quiet; decide⟩
  exact (pattern_persists .table _ (fun _ => none) greenThenRed).1 [.pattern .green] hlast

end DevBoards.Tree
