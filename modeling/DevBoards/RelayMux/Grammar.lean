import DevBoards.RelayMux.Agreement

/-!
# Which subjects move a relay

`OnCommand` looks for `CHAN` at the start of the subject and reads the digit
after it. It never looks past the digit, so `CHAN12` is taken for `CHAN1`.

* `accepts_iff`: the subjects taken for channel `n` are those that start with
  `CHANn`.
* `body_frame`: a command touches its own channel only.
* `grammar_exact_iff`: the grammar is exact on every call but `MUX` commands
  whose subject goes on after the digit.
-/
namespace DevBoards.RelayMux

variable {s t : St} {n m : Fin 4} {side : Side} {sel : Bool} {subject command args : CString}

/-! ## Frames -/

/-- All that may differ between `s` and `t` is of channel `n`. -/
structure Frame (n : Fin 4) (s t : St) : Prop where
  select : ∀ m ≠ n, t.select m = s.select m
  relay : ∀ m ≠ n, t.relay m = s.relay m
  gpio : ∀ p, (∀ side, p ≠ coil side n) → t.gpio p = s.gpio p
  isInput : t.expander.isInput = s.expander.isInput
  output : ∀ l, (∀ side, l ≠ led side n) → t.expander.output l = s.expander.output l

theorem Frame.refl (n : Fin 4) (s : St) : Frame n s s :=
  ⟨fun _ _ => rfl, fun _ _ => rfl, fun _ _ => rfl, rfl, fun _ _ => rfl⟩

/-- The coils of another channel are as they were. -/
theorem Frame.energised (h : Frame n s t) (hm : m ≠ n) (side : Side) :
    t.energised side m = s.energised side m :=
  h.gpio _ fun _ hc => hm (coil_inj hc).2

/-- The LEDs of another channel are as they were. -/
theorem Frame.lit (h : Frame n s t) (hm : m ≠ n) (side : Side) :
    t.lit (led side m) = s.lit (led side m) := by
  unfold St.lit
  rw [h.isInput, h.output _ fun _ hl => hm (led_inj hl).2]

/-- No step changes the state. -/
def Untouched (s : St) (ops : List Op) : Prop := board.Along (fun t op => (exec t op).1 = t) s ops

/-- Every step stays within channel `n`. -/
def TouchesOnly (n : Fin 4) (s : St) (ops : List Op) : Prop :=
  board.Along (fun t op => Frame n t (exec t op).1) s ops

/-- An operation of channel `n`. -/
def Op.On (n : Fin 4) : Op → Prop
  | .gpio pin _ => ∃ side, pin = coil side n
  | .setDirection _ _ => False
  | .led l _ => ∃ side, l = RelayMux.led side n
  | .select chan _ => chan = n
  | .sleep _ => True
  | .print _ => True

/-- The other channels are at rest. -/
structure Calm (n : Fin 4) (s : St) : Prop where
  reset : s.gpio expanderReset = true
  coils : ∀ m ≠ n, ∀ side, s.gpio (coil side m) = false

theorem Ready.calm (h : Ready s) (n : Fin 4) : Calm n s := ⟨h.reset, fun m _ side => h.coils side m⟩

theorem exec_coil (h : Calm n s) (side : Side) (level : Bool) :
    Frame n s (exec s (.gpio (coil side n) level)).1 ∧
      Calm n (exec s (.gpio (coil side n) level)).1 := by
  have hreset : s.gpio.drive (coil side n) level expanderReset = true :=
    (Levels.drive_ne _ _ (coil_ne_reset side n)).trans h.reset
  have hother : ∀ m ≠ n, ∀ side', s.gpio.drive (coil side n) level (coil side' m) = false := by
    intro m hm side'
    exact (Levels.drive_ne _ _ fun hc => hm (coil_inj hc).2).trans (h.coils m hm side')
  rw [exec_gpio hreset]
  refine ⟨⟨fun _ _ => rfl, ?_, ?_, rfl, fun _ _ => rfl⟩, hreset, hother⟩
  · intro m hm
    show settle _ s.relay m = s.relay m
    unfold settle
    rw [hother m hm, hother m hm]
    rfl
  · intro p hp
    exact Levels.drive_ne _ _ (hp side)

theorem exec_on (h : Calm n s) {op : Op} (hop : op.On n) :
    Frame n s (exec s op).1 ∧ Calm n (exec s op).1 := by
  cases op with
  | gpio pin level =>
    obtain ⟨side, rfl⟩ := hop
    exact exec_coil h side level
  | setDirection l input => exact hop.elim
  | led l level =>
    obtain ⟨side, rfl⟩ := hop
    refine ⟨⟨fun _ _ => rfl, fun _ _ => rfl, fun _ _ => rfl, rfl, ?_⟩, h.reset, h.coils⟩
    intro l hl
    exact Function.update_of_ne (hl side) ..
  | select chan sel =>
    cases hop
    refine ⟨⟨?_, fun _ _ => rfl, fun _ _ => rfl, rfl, fun _ _ => rfl⟩, h.reset, h.coils⟩
    intro m hm
    exact Function.update_of_ne hm ..
  | sleep ticks => exact ⟨.refl n s, h⟩
  | print text => exact ⟨.refl n s, h⟩

/-! ## The body of a command -/

/-- What a command does on channel `n`. -/
def body (n : Fin 4) (sel : Bool) : List Op :=
  [Op.select n sel] ++ setRelay n sel ++
    [Op.led (muxledA n) (sel == false), Op.led (muxledB n) (sel == true)]

theorem body_on (n : Fin 4) (sel : Bool) : ∀ op ∈ body n sel, op.On n := by
  have hA : ∃ side, relayA n = coil side n := ⟨.a, rfl⟩
  have hB : ∃ side, relayB n = coil side n := ⟨.b, rfl⟩
  have hlA : ∃ side, muxledA n = led side n := ⟨.a, rfl⟩
  have hlB : ∃ side, muxledB n = led side n := ⟨.b, rfl⟩
  cases sel <;> simp [body, setRelay, Op.On, hA, hB, hlA, hlB]

theorem body_frame (h : Ready s) (n : Fin 4) (sel : Bool) : TouchesOnly n s (body n sel) :=
  board.along_of_inv (Calm n) (fun _ op hop hcalm => exec_on hcalm (body_on n sel op hop)) s
    (h.calm n)

/-- The body energises a coil. -/
theorem body_moves (h : Ready s) (n : Fin 4) (sel : Bool) : ¬ Untouched s (body n sel) := by
  have hbody : body n sel = [Op.select n sel, Op.gpio (coil (sideOf sel) n) true] ++
      (setRelay n sel).tail ++
        [Op.led (muxledA n) (sel == false), Op.led (muxledB n) (sel == true)] := by
    cases sel <;> rfl
  intro hun
  unfold Untouched at hun
  rw [hbody, List.append_assoc, Machine.along_append] at hun
  obtain ⟨⟨hsel, hcoil, -⟩, -⟩ := hun
  change (exec (exec s (.select n sel)).1 _).1 = (exec s (.select n sel)).1 at hcoil
  rw [hsel, exec_high h] at hcoil
  have hon : s.energised (sideOf sel) n = true :=
    (congrFun (congrArg St.gpio hcoil) _).symm.trans (Levels.drive_same ..)
  rw [h.coils] at hon
  cases hon

/-! ## The grammar -/

/-- The subject starts with `CHANn`. -/
def Accepts (n : Fin 4) (subject : CString) : Prop := (chanSubject n).bytes <+: subject.bytes

/-- The subject goes on after `CHANn`. -/
def Trailing (subject : CString) : Prop :=
  ∃ n rest, rest ≠ [] ∧ subject.bytes = (chanSubject n).bytes ++ rest

theorem nchan_eq_some_iff (subject : CString) (n : Fin 4) :
    nchan subject = some n ↔ subject.get 4 = 0x30 + UInt8.ofNat n.val := by
  have hdigit : (0x30 + UInt8.ofNat n.val).toNat = 0x30 + n.val := by revert n; decide
  rw [← UInt8.toNat_inj, hdigit]
  have := n.isLt
  unfold nchan
  dsimp only
  split
  · simp only [reduceCtorEq, false_iff]
    omega
  · rw [Option.some.injEq, Fin.ext_iff]
    dsimp only
    omega

/-- The strings read as channel `n`: those that start with `CHANn`. -/
theorem accepts_iff (n : Fin 4) (subject : CString) :
    Accepts n subject ↔ CString.strstr subject CHAN = some 0 ∧ nchan subject = some n := by
  rw [CString.strstr_eq_zero_iff, nchan_eq_some_iff]
  unfold Accepts
  have hbytes : (chanSubject n).bytes = CHAN.bytes ++ [0x30 + UInt8.ofNat n.val] := rfl
  have hne : 0x30 + UInt8.ofNat n.val ≠ 0 := by revert n; decide
  rw [hbytes]
  constructor
  · rintro ⟨rest, hrest⟩
    refine ⟨⟨_, (List.append_assoc ..).symm.trans hrest⟩, ?_⟩
    unfold CString.get
    rw [← hrest]
    rfl
  · rintro ⟨⟨rest, hrest⟩, hget⟩
    unfold CString.get at hget
    rw [← hrest] at hget ⊢
    cases rest with
    | nil => exact absurd hget.symm hne
    | cons b bs =>
      obtain rfl : b = _ := hget
      exact ⟨bs, List.append_assoc ..⟩

theorem accepts_cases (h : Accepts n subject) : subject = chanSubject n ∨ Trailing subject := by
  obtain ⟨rest, hrest⟩ := h
  cases rest with
  | nil => exact .inl (CString.ext_bytes (hrest.symm.trans (List.append_nil _)))
  | cons b bs => exact .inr ⟨n, b :: bs, List.cons_ne_nil _ _, hrest.symm⟩

theorem not_trailing_chan (n : Fin 4) : ¬ Trailing (chanSubject n) := by
  rintro ⟨m, rest, hrest, hbytes⟩
  have hlen : 5 = 5 + rest.length := (congrArg List.length hbytes).trans (List.length_append ..)
  exact hrest (List.length_eq_zero_iff.mp (by omega))

theorem onCommand_accepts (h : Accepts n subject) (args : CString) :
    onCommand subject MUX args = body n (args.get 0 == 0x42) := by
  obtain ⟨hstr, hchan⟩ := (accepts_iff n subject).mp h
  have hmux : ¬ CString.strcmp MUX MUX ≠ 0 :=
    not_not.mpr ((CString.strcmp_eq_zero_iff _ _).mpr rfl)
  unfold onCommand
  rw [if_pos hstr, if_neg hmux, hchan]
  rfl

theorem onCommand_rejects (args : CString) (h : ¬ (command = MUX ∧ ∃ n, Accepts n subject)) :
    onCommand subject command args = [] := by
  unfold onCommand
  split
  · rename_i hstr
    split
    · rfl
    · rename_i hcmd
      have hmux : command = MUX := (CString.strcmp_eq_zero_iff _ _).mp (not_not.mp hcmd)
      cases hchan : nchan subject with
      | none => rfl
      | some n => exact absurd ⟨hmux, n, (accepts_iff n subject).mpr ⟨hstr, hchan⟩⟩ h
  · rfl

/-- What the grammar promises of a call: a `MUX` command to `CHANn` touches
channel `n` only, every other command nothing, and a query nothing. -/
structure GrammarExact (s : St) (subject command args : CString) : Prop where
  accepted : ∀ n, command = MUX → subject = chanSubject n →
    TouchesOnly n s (onCommand subject command args)
  rejected : ¬ (command = MUX ∧ ∃ n, subject = chanSubject n) →
    Untouched s (onCommand subject command args)
  query : Untouched s (onQuery s subject command)

theorem query_untouched (s : St) (subject command : CString) :
    Untouched s (onQuery s subject command) := by
  unfold Untouched
  rcases onQuery_cases s subject command with hops | ⟨text, hops⟩
  · rw [hops]; trivial
  · rw [hops]; exact ⟨rfl, trivial⟩

/-- A subject that goes on after the digit moves the relay all the same. -/
theorem trailing_moves (h : Ready s) (hsub : Trailing subject) (args : CString) :
    ¬ GrammarExact s subject MUX args := by
  obtain ⟨n, rest, -, hbytes⟩ := id hsub
  have hacc : Accepts n subject := ⟨rest, hbytes.symm⟩
  intro hex
  refine body_moves h n (args.get 0 == 0x42) ?_
  rw [← onCommand_accepts hacc args]
  apply hex.rejected
  rintro ⟨-, m, rfl⟩
  exact not_trailing_chan m hsub

theorem exact_iff (h : Ready s) (subject command args : CString) :
    GrammarExact s subject command args ↔ ¬ (command = MUX ∧ Trailing subject) := by
  constructor
  · rintro hex ⟨rfl, hsub⟩
    exact trailing_moves h hsub args hex
  · intro hgood
    refine ⟨?_, ?_, query_untouched s subject command⟩
    · rintro n rfl rfl
      rw [onCommand_accepts (List.prefix_refl _)]
      exact body_frame h n _
    · intro hrej
      rw [onCommand_rejects args]
      · trivial
      · rintro ⟨hcmd, n, hacc⟩
        rcases accepts_cases hacc with hsub | hsub
        · exact hrej ⟨hcmd, n, hsub⟩
        · exact hgood ⟨hcmd, hsub⟩

theorem reachable_ready (e : Expander) (r : Fin 4 → Side) (m : Fin 4 → Bool) (calls : List Call) :
    Ready (mux.final (board.final (powerOn e r m) bspInit) calls) := by
  obtain ⟨-, hready, hfollows⟩ := booted_spec e r m
  exact (calls_spec calls ⟨hready, hfollows⟩).2.ready

/-- **The grammar is exact** in every reachable state, but for a `MUX` command
whose subject goes on after the digit. -/
theorem grammar_exact_iff (e : Expander) (r : Fin 4 → Side) (m : Fin 4 → Bool) (calls : List Call)
    (subject command args : CString) :
    GrammarExact (mux.final (board.final (powerOn e r m) bspInit) calls) subject command args ↔
      ¬ (command = MUX ∧ Trailing subject) :=
  exact_iff (reachable_ready e r m calls) subject command args

/-- `CHAN12:MUX B` -/
def chan12 : CString := ⟨[0x43, 0x48, 0x41, 0x4e, 0x31, 0x32], by decide⟩

def argB : CString := ⟨[0x42], by decide⟩

/-- There is no channel 12, yet a command to it moves relay 1. -/
theorem chan12_moves :
    let s := mux.final (board.final (powerOn .cleared (fun _ => .a) (fun _ => false)) bspInit) []
    s.relay 1 = .a ∧ (mux.step s (.onCommand chan12 MUX argB)).1.relay 1 = .b ∧
      ¬ GrammarExact s chan12 MUX argB := by
  have hready := reachable_ready .cleared (fun _ => .a) (fun _ => false) []
  have hsub : Trailing chan12 := ⟨1, [0x32], List.cons_ne_nil _ _, rfl⟩
  have hexact := trailing_moves hready hsub argB
  refine ⟨?_, ?_, hexact⟩
  · decide +kernel
  · decide +kernel

end DevBoards.RelayMux
