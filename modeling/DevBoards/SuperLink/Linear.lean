import DevBoards.SuperLink.Link

/-!
# Register reads are linearizable and leave nothing behind

`Wake` holds in every run: once `OnCommand` is through, the transmit interrupt
is enabled for as long as there is a byte to send. `Inv H` follows one
transaction: until the server has seen the command no reply byte exists; from
then on the bytes read so far and the bytes still on their way are, together,
the dummy and the two bytes of one value that meets `H`. `H` collects the
values the variable has held since the transaction began.

* `wake_step`: every step keeps `Wake`.
* `reply_loaded`: with both, the byte the main MCU clocks is there in time.
* `inv_step`: every timely step keeps `Inv H`.
* `read_linearizable`: a transaction returns a value that the requested
  variable held at one instant of it, and leaves no reply byte behind.
-/
namespace DevBoards.SuperLink

variable {ids : RegIds} {idle : UInt8}

/-! ## The server -/

/-- The commands a server will run on these events, and whether it then takes
the next byte for a command. -/
def scan : Bool → List Event → List UInt8 × Bool
  | a, [] => ([], a)
  | _, .csEdge :: es => scan true es
  | true, .byte b :: es => (b :: (scan false es).1, (scan false es).2)
  | false, .byte _ :: es => scan false es

theorem scan_csEdge (a : Bool) (es : List Event) :
    scan a (es ++ [.csEdge]) = ((scan a es).1, true) := by
  induction es generalizing a with
  | nil => rfl
  | cons e es ih =>
    cases e with
    | csEdge => exact ih true
    | byte b =>
      cases a
      · exact ih false
      · simp only [List.cons_append, scan, ih]

/-- A byte that is not awaited is ignored. -/
theorem scan_byte {a : Bool} {es : List Event} {bs : List UInt8} (h : scan a es = (bs, false))
    (b : UInt8) : scan a (es ++ [.byte b]) = (bs, false) := by
  induction es generalizing a bs with
  | nil => cases h; rfl
  | cons e es ih =>
    cases e with
    | csEdge => exact ih h
    | byte b' =>
      cases a
      · exact ih h
      · obtain ⟨rfl, h2⟩ := Prod.mk.injEq .. ▸ h
        have hrest : scan false es = ((scan false es).1, false) := Prod.ext rfl h2
        simp only [List.cons_append, scan, ih hrest]

/-! ## What a step does -/

variable {s s' : St}

theorem step_poll (h : (link ids idle).step s .poll = some s') :
    s.todo = [] ∧ poll ids s = some s' := by
  simp only [link, step] at h
  split at h
  · exact ⟨‹_›, h⟩
  · cases h

theorem step_push (h : (link ids idle).step s .push = some s') : ∃ op ops, s.todo = op :: ops ∧
    s' = { s with spi := s.spi.write s.mem op, todo := ops } := by
  simp only [link, step] at h
  split at h
  · exact ⟨_, _, ‹_›, (Option.some.inj h).symm⟩
  · cases h

theorem step_pollIBCSensors {sensors : Sensors}
    (h : (link ids idle).step s (.pollIBCSensors sensors) = some s') :
    s.todo = [] ∧ s' = { s with mem := { s.mem with toSensors := sensors } } := by
  simp only [link, step] at h
  split at h
  · exact ⟨‹_›, (Option.some.inj h).symm⟩
  · cases h

theorem step_begin {r : Sensor} (h : (link ids idle).step s (.begin r) = some s') :
    s.phase = .idle ∧ s' = { s with phase := .selected r, spi := s.spi.onIRQCSEdge } := by
  simp only [link, step, readSupervisorRegister] at h
  split at h
  · exact ⟨‹_›, (Option.some.inj h).symm⟩
  · cases h

theorem step_send (h : (link ids idle).step s .send = some s') : ∃ r, s.phase = .selected r ∧
    s' = { s with phase := .reading r [],
                  spi := (s.spi.exchange idle (ids.code (.sensor r))).2 } := by
  simp only [link, step, readSupervisorRegister] at h
  split at h
  · exact ⟨_, ‹_›, (Option.some.inj h).symm⟩
  · cases h

theorem step_read (h : (link ids idle).step s .read = some s') : ∃ r got, s.phase = .reading r got ∧
    got.length < 3 ∧ s' = { s with phase := .reading r (got ++ [(s.spi.exchange idle 0).1]),
                                   spi := (s.spi.exchange idle 0).2 } := by
  simp only [link, step, readSupervisorRegister] at h
  split at h
  · split at h
    · exact ⟨_, _, ‹_›, ‹_›, (Option.some.inj h).symm⟩
    · cases h
  · cases h

theorem step_finish {ret : UInt16} (h : (link ids idle).step s (.finish ret) = some s') :
    ∃ r d lo hi, s.phase = .reading r [d, lo, hi] ∧ ret = word lo hi ∧
      s' = { s with phase := .idle } := by
  simp only [link, step, readSupervisorRegister] at h
  split at h
  · split at h
    · exact ⟨_, _, _, _, ‹_›, ‹_›, (Option.some.inj h).symm⟩
    · cases h
  · cases h

/-! ## The transmit interrupt -/

/-- `OnCommand` ends by enabling the transmit interrupt, and then no byte to
send is left without it. -/
structure Wake (s : St) : Prop where
  command : s.todo ≠ [] → s.todo.getLast? = some .enable
  enabled : s.todo = [] → s.spi.txFifo ≠ [] → s.spi.txeie = true

theorem wake_boot (m : Mem) : Wake (boot m) := ⟨fun h => absurd rfl h, fun _ h => absurd rfl h⟩

/-- The bus, the server and the sensors touch none of what `Wake` is about. -/
theorem Wake.congr (h : Wake s) (htodo : s'.todo = s.todo) (hfifo : s'.spi.txFifo = s.spi.txFifo)
    (htxeie : s'.spi.txeie = s.spi.txeie) : Wake s' :=
  ⟨by rw [htodo]; exact h.command, by rw [htodo, hfifo, htxeie]; exact h.enabled⟩

theorem onCommand_getLast (ids : RegIds) (b : UInt8) :
    (onCommand ids b).getLast? = some .enable := by
  unfold onCommand
  split
  · rw [← List.append_assoc, List.getLast?_concat]
  · rfl

theorem wake_handler (h : Wake s) : Wake { s with spi := s.spi.spi1Handler } := by
  refine ⟨h.command, fun htodo hfifo => ?_⟩
  rcases Spi.spi1Handler_tx s.spi with hempty | ⟨htxeie, hsuffix⟩
  · exact absurd hempty hfifo
  · have hbefore : s.spi.txFifo ≠ [] := by
      intro hnil
      rw [hnil] at hsuffix
      exact hfifo (List.suffix_nil.mp hsuffix)
    exact htxeie.trans (h.enabled htodo hbefore)

theorem wake_push {op : Push} {ops : List Push} (h : Wake s) (hops : s.todo = op :: ops) :
    Wake { s with spi := s.spi.write s.mem op, todo := ops } := by
  have hlast := h.command (by rw [hops]; exact List.cons_ne_nil _ _)
  rw [hops] at hlast
  constructor
  · intro hne
    rwa [List.getLast?_cons_of_ne_nil hne] at hlast
  · rintro rfl -
    obtain rfl := Option.some.inj hlast
    rfl

theorem wake_poll (h : Wake s) (hpoll : poll ids s = some s') : Wake s' := by
  unfold poll at hpoll
  split at hpoll
  · cases hpoll
    exact h.congr rfl rfl rfl
  · simp only at hpoll
    split at hpoll
    · cases hpoll
      exact ⟨fun _ => onCommand_getLast ids _, fun hnil => absurd hnil (List.cons_ne_nil _ _)⟩
    · cases hpoll
      exact h.congr rfl rfl rfl
  · cases hpoll

/-- **The interrupt is not forgotten,** however the steps are interleaved. -/
theorem wake_step {l : Label} (h : Wake s) (hstep : (link ids idle).step s l = some s') :
    Wake s' := by
  cases l with
  | begin r =>
    obtain ⟨-, rfl⟩ := step_begin hstep
    have htx := Spi.onIRQCSEdge_tx s.spi
    exact h.congr rfl htx.1 htx.2
  | send => obtain ⟨r, -, rfl⟩ := step_send hstep; exact h.congr rfl rfl rfl
  | read => obtain ⟨r, got, -, -, rfl⟩ := step_read hstep; exact h.congr rfl rfl rfl
  | finish ret => obtain ⟨r, d, lo, hi, -, -, rfl⟩ := step_finish hstep; exact h.congr rfl rfl rfl
  | handler => cases hstep; exact wake_handler h
  | poll => exact wake_poll h (step_poll hstep).2
  | push => obtain ⟨op, ops, hops, rfl⟩ := step_push hstep; exact wake_push h hops
  | pollIBCSensors sensors =>
    obtain ⟨-, rfl⟩ := step_pollIBCSensors hstep
    exact h.congr rfl rfl rfl

/-! ## The invariant -/

/-- Nothing of a transaction is under way. -/
structure Quiet (awaits : Bool) (bound : Nat) (s : St) : Prop where
  commands : scan s.awaiting s.spi.events = ([], awaits)
  events : s.spi.events.length ≤ bound
  replies : s.replies = []

/-- The command is the last event the server has yet to see. -/
structure Pending (b : UInt8) (s : St) : Prop where
  commands : ∃ es, s.spi.events = es ++ [.byte b] ∧ scan s.awaiting es = ([], true) ∧ es.length ≤ 4
  replies : s.replies = []

/-- The reply is on its way. -/
structure Replying (H : UInt16 → Prop) (got : List UInt8) (s : St) : Prop where
  commands : scan s.awaiting s.spi.events = ([], false)
  events : s.spi.events.length ≤ got.length
  count : got.length ≤ 3
  /-- `OnCommand` was through before the first byte was clocked. -/
  through : got ≠ [] → s.todo = []
  replies : ∃ v, H v ∧ got ++ s.replies = [0, lowByte v, highByte v]

/-- `H` holds of the value replied with. -/
def Inv (ids : RegIds) (H : UInt16 → Prop) (s : St) : Prop :=
  match s.phase with
  | .idle => Quiet false 3 s
  | .selected _ => Quiet true 4 s
  | .reading r got => (got = [] ∧ Pending (ids.code (.sensor r)) s) ∨ Replying H got s

variable {H : UInt16 → Prop}

theorem Inv.congr (h : Inv ids H s) (hphase : s'.phase = s.phase) (ha : s'.awaiting = s.awaiting)
    (he : s'.spi.events = s.spi.events) (hr : s'.replies = s.replies)
    (ht : s.todo = [] → s'.todo = []) : Inv ids H s' := by
  unfold Inv at h ⊢
  rw [hphase]
  split at h
  · exact ⟨by rw [ha, he]; exact h.commands, by rw [he]; exact h.events, hr.trans h.replies⟩
  · exact ⟨by rw [ha, he]; exact h.commands, by rw [he]; exact h.events, hr.trans h.replies⟩
  · rcases h with ⟨hgot, h⟩ | h
    · exact .inl ⟨hgot, by rw [ha, he]; exact h.commands, hr.trans h.replies⟩
    · exact .inr ⟨by rw [ha, he]; exact h.commands, by rw [he]; exact h.events, h.count,
        fun hgot => ht (h.through hgot), by rw [hr]; exact h.replies⟩

/-- Five events, three reply bytes: neither FIFO can fill up. -/
theorem Inv.room (h : Inv ids H s) :
    s.spi.rxFifo.length < Spi.fifoSize ∧ s.spi.txFifo.length < Spi.fifoSize := by
  have hboth : s.spi.events.length ≤ 5 ∧ s.replies.length ≤ 3 := by
    unfold Inv at h
    split at h
    · exact ⟨Nat.le_trans h.events (by decide), by rw [h.replies]; exact Nat.zero_le _⟩
    · exact ⟨Nat.le_trans h.events (by decide), by rw [h.replies]; exact Nat.zero_le _⟩
    · rcases h with ⟨-, ⟨es, hes, -, hlen⟩, hr⟩ | ⟨-, hev, hcount, -, v, -, hv⟩
      · rw [hes, hr, List.length_append]
        exact ⟨Nat.succ_le_succ hlen, Nat.zero_le _⟩
      · refine ⟨by omega, ?_⟩
        have := congrArg List.length hv
        simp only [List.length_append, List.length_cons, List.length_nil] at this
        omega
  obtain ⟨h1, h2⟩ := hboth
  simp only [Spi.events, St.replies, Spi.queued, List.length_append, Spi.fifoSize] at h1 h2 ⊢
  omega

/-! ## The supervisor's steps -/

theorem inv_handler (h : Inv ids H s) : Inv ids H { s with spi := s.spi.spi1Handler } :=
  h.congr rfl rfl (Spi.spi1Handler_events h.room.1)
    (congrArg (· ++ pushed s.mem s.todo) (Spi.spi1Handler_queued s.spi)) id

theorem inv_push {op : Push} {ops : List Push} (h : Inv ids H s) (hops : s.todo = op :: ops) :
    Inv ids H { s with spi := s.spi.write s.mem op, todo := ops } := by
  refine h.congr rfl rfl (Spi.write_events s.mem op) ?_ fun hnil => by rw [hops] at hnil; cases hnil
  unfold St.replies
  rw [Spi.write_queued s.mem op h.room.2, hops, pushed_cons, List.append_assoc]

theorem inv_pollIBCSensors (sensors : Sensors) (h : Inv ids H s) (htodo : s.todo = []) :
    Inv ids H { s with mem := { s.mem with toSensors := sensors } } := by
  refine h.congr rfl rfl rfl ?_ id
  unfold St.replies
  rw [htodo]
  rfl

/-- The server sees an event that is no command to it. -/
theorem inv_skip {e : Event} {es : List Event} {a : Bool} (h : Inv ids H s)
    (hes : s.spi.rxFifo = e :: es) (hscan : ∀ es', scan s.awaiting (e :: es') = scan a es') :
    Inv ids H { s with spi := { s.spi with rxFifo := es }, awaiting := a } := by
  have hevents : s.spi.events = e :: Spi.events { s.spi with rxFifo := es } := by
    simp [Spi.events, hes]
  have hlt : (Spi.events { s.spi with rxFifo := es }).length ≤ s.spi.events.length := by
    rw [hevents]; exact Nat.le_succ _
  unfold Inv at h ⊢
  simp only
  split at h
  · refine ⟨?_, Nat.le_trans hlt h.events, h.replies⟩
    rw [← hscan, ← hevents]; exact h.commands
  · refine ⟨?_, Nat.le_trans hlt h.events, h.replies⟩
    rw [← hscan, ← hevents]; exact h.commands
  · rcases h with ⟨hgot, ⟨es₀, hes₀, hscan₀, hlen₀⟩, hr⟩ | h
    · refine .inl ⟨hgot, ?_, hr⟩
      rw [hevents] at hes₀
      cases es₀ with
      | nil =>
        -- the command itself would be next, and that one is not skipped
        obtain ⟨rfl, -⟩ := List.cons.inj hes₀
        have haw : s.awaiting = true := (Prod.mk.inj hscan₀).2
        have := hscan []
        rw [haw] at this
        cases (Prod.mk.inj this).1
      | cons e₀ es₀ =>
        obtain ⟨rfl, htail⟩ := List.cons.inj hes₀
        exact ⟨es₀, htail, (hscan es₀).symm.trans hscan₀, Nat.le_of_succ_le hlen₀⟩
    · refine .inr ⟨?_, Nat.le_trans hlt h.events, h.count, h.through, h.replies⟩
      rw [← hscan, ← hevents]; exact h.commands

/-- The server sees a command: it is the pending one, and the value it
replies with is the one the variable holds. -/
theorem inv_command {b : UInt8} {es : List Event} (h : Inv ids H s)
    (hH : ∀ r got, s.phase = .reading r got → H (s.mem.get r)) (hes : s.spi.rxFifo = .byte b :: es)
    (haw : s.awaiting = true) :
    Inv ids H { s with spi := { s.spi with rxFifo := es }, awaiting := false,
                       todo := onCommand ids b } := by
  have hevents : s.spi.events = .byte b :: Spi.events { s.spi with rxFifo := es } := by
    simp [Spi.events, hes]
  -- a command in sight is ruled out unless one is pending
  have hno : ∀ awaits, scan s.awaiting s.spi.events ≠ ([], awaits) := by
    intro awaits hscan
    rw [hevents, haw] at hscan
    cases (Prod.mk.inj hscan).1
  unfold Inv at h ⊢
  simp only
  split at h
  · exact absurd h.commands (hno _)
  · exact absurd h.commands (hno _)
  · rename_i r got hphase
    rcases h with ⟨rfl, ⟨es₀, hes₀, hscan₀, -⟩, hr⟩ | h
    · rw [hevents] at hes₀
      cases es₀ with
      | nil =>
        obtain ⟨hb, hnil⟩ := List.cons.inj hes₀
        obtain rfl := Event.byte.inj hb
        have hq := (List.append_eq_nil_iff.mp hr).1
        refine .inr ⟨by rw [hnil]; rfl, by rw [hnil]; exact Nat.le_refl 0, Nat.zero_le 3,
          fun hne => absurd rfl hne, s.mem.get r, hH r [] hphase, ?_⟩
        show [] ++ (Spi.queued s.spi ++ pushed s.mem (onCommand ids _)) = _
        rw [hq, pushed_onCommand]
        rfl
      | cons e₀ es₀ =>
        obtain ⟨rfl, -⟩ := List.cons.inj hes₀
        rw [haw] at hscan₀
        cases (Prod.mk.inj hscan₀).1
    · exact absurd h.commands (hno _)

theorem inv_poll (h : Inv ids H s) (hH : ∀ r got, s.phase = .reading r got → H (s.mem.get r))
    (hpoll : poll ids s = some s') : Inv ids H s' := by
  unfold poll at hpoll
  split at hpoll
  · rename_i es hes
    cases hpoll
    exact inv_skip h hes fun es' => rfl
  · rename_i b es hes
    simp only at hpoll
    split at hpoll
    · cases hpoll
      exact inv_command h hH hes ‹_›
    · rename_i haw
      cases hpoll
      have haw : s.awaiting = false := by simpa using haw
      apply inv_skip h hes
      intro es'
      rw [haw]
      rfl
  · cases hpoll

/-! ## The main MCU's steps -/

/-- A transaction begins with nothing under way, whatever `H`. -/
theorem inv_begin {H' : UInt16 → Prop} {r : Sensor} (h : Inv ids H' s) (hrx : s.spi.rxDr = none)
    (hstep : (link ids idle).step s (.begin r) = some s') : Inv ids H s' := by
  obtain ⟨hphase, rfl⟩ := step_begin hstep
  have hroom := h.room.1
  unfold Inv at h ⊢
  simp only [hphase] at h ⊢
  have hevents := Spi.onIRQCSEdge_events hroom hrx
  refine ⟨?_, ?_, ?_⟩
  · simp only [hevents, scan_csEdge, h.commands]
  · simp only [hevents, List.length_append, List.length_singleton]
    exact Nat.succ_le_succ h.events
  · exact (congrArg (· ++ pushed s.mem s.todo) (Spi.onIRQCSEdge_queued s.spi)).trans h.replies

theorem inv_send (h : Inv ids H s) (hrx : s.spi.rxDr = none)
    (hstep : (link ids idle).step s .send = some s') : Inv ids H s' := by
  obtain ⟨r, hphase, rfl⟩ := step_send hstep
  unfold Inv at h ⊢
  simp only [hphase] at h ⊢
  obtain ⟨hq, hp⟩ := List.append_eq_nil_iff.mp h.replies
  refine .inl ⟨trivial, ⟨_, Spi.exchange_events idle _ hrx, h.commands, h.events⟩, ?_⟩
  show (Spi.exchange idle s.spi _).2.queued ++ pushed s.mem s.todo = []
  rw [Spi.exchange_queued_none idle _ hq, hp, List.append_nil]

/-- **In time.** A byte of the reply is loaded whenever the main MCU clocks
one: none is missing by `Inv`, and by `Wake` none is stuck in the FIFO. -/
theorem reply_loaded {r : Sensor} {got : List UInt8} (h : Inv ids H s) (hw : Wake s)
    (ht : Timely s .read s') (hphase : s.phase = .reading r got) (hlt : got.length < 3) :
    Replying H got s ∧ s.todo = [] ∧ ∃ d, s.spi.txDr = some d := by
  obtain ⟨⟨hrx, htx⟩, hsleep⟩ := ht
  unfold Inv at h
  simp only [hphase] at h
  rcases h with ⟨rfl, ⟨es, hes, -⟩, -⟩ | h
  · -- the server has seen the command, so it is pending no more
    have hfifo := (hsleep (by rw [hphase]; rfl)).1
    have hnil : s.spi.events = [] := by rw [Spi.events, hfifo, hrx]; rfl
    rw [hnil] at hes
    cases es <;> cases hes
  · have htodo : s.todo = [] := by
      cases got with
      | nil => exact (hsleep (by rw [hphase]; rfl)).2
      | cons b bs => exact h.through (List.cons_ne_nil _ _)
    refine ⟨h, htodo, Option.isSome_iff_exists.mp ?_⟩
    obtain ⟨v, -, hgot⟩ := h.replies
    cases hdr : s.spi.txDr with
    | some d => rfl
    | none =>
      have hfifo : s.spi.txFifo ≠ [] := by
        intro hnil
        have hnone : s.replies = [] := by rw [St.replies, Spi.queued, hdr, hnil, htodo]; rfl
        have hlen := congrArg List.length hgot
        rw [hnone, List.append_nil] at hlen
        exact absurd hlen (Nat.ne_of_lt hlt)
      have hloaded := htx (hw.enabled htodo hfifo)
      rwa [hdr] at hloaded

theorem inv_read (h : Inv ids H s) (hw : Wake s) (ht : Timely s .read s')
    (hstep : (link ids idle).step s .read = some s') : Inv ids H s' := by
  obtain ⟨r, got, hphase, hlt, rfl⟩ := step_read hstep
  obtain ⟨h, htodo, d, hd⟩ := reply_loaded h hw ht hphase hlt
  have hqueued := Spi.exchange_queued idle 0 hd
  have hevents := Spi.exchange_events idle 0 ht.1.1
  unfold Inv
  simp only
  refine .inr ⟨?_, ?_, ?_, fun _ => htodo, ?_⟩
  · simp only [hevents]
    exact scan_byte h.commands 0
  · have := h.events
    simp only [hevents, List.length_append, List.length_singleton]
    omega
  · rw [List.length_append]; exact hlt
  · obtain ⟨v, hv, hgot⟩ := h.replies
    refine ⟨v, hv, ?_⟩
    rw [← hgot]
    simp [St.replies, hqueued]

/-- **At the end** the transaction returns the value replied with, and
nothing is under way. -/
theorem inv_finish {ret : UInt16} (h : Inv ids H s)
    (hstep : (link ids idle).step s (.finish ret) = some s') :
    H ret ∧ Quiet false 3 s' := by
  obtain ⟨r, d, lo, hi, hphase, hret, rfl⟩ := step_finish hstep
  unfold Inv at h
  simp only [hphase] at h
  rcases h with ⟨hgot, -⟩ | h
  · cases hgot
  · obtain ⟨v, hv, hgot⟩ := h.replies
    simp only [List.cons_append, List.nil_append, List.cons.injEq] at hgot
    obtain ⟨-, rfl, rfl, hrest⟩ := hgot
    rw [hret, word_bytes]
    exact ⟨hv, h.commands, h.events, hrest⟩

/-! ## Runs -/

/-- **Step.** Every timely step keeps the invariant; the main MCU's `finish`
ends the transaction. -/
theorem inv_step {l : Label} (h : Inv ids H s) (hw : Wake s)
    (hH : ∀ r got, s.phase = .reading r got → H (s.mem.get r)) (ht : Timely s l s')
    (hstep : (link ids idle).step s l = some s') : Inv ids H s' := by
  cases l with
  | begin r => exact inv_begin h ht hstep
  | send => exact inv_send h ht hstep
  | read => exact inv_read h hw ht hstep
  | finish ret =>
    have hquiet := (inv_finish h hstep).2
    obtain ⟨r, d, lo, hi, -, -, rfl⟩ := step_finish hstep
    exact hquiet
  | handler =>
    cases hstep
    exact inv_handler h
  | poll => exact inv_poll h hH (step_poll hstep).2
  | push => obtain ⟨op, ops, hops, rfl⟩ := step_push hstep; exact inv_push h hops
  | pollIBCSensors sensors =>
    obtain ⟨htodo, rfl⟩ := step_pollIBCSensors hstep
    exact inv_pollIBCSensors sensors h htodo

theorem inv_boot (m : Mem) : Inv ids H (boot m) := ⟨rfl, Nat.zero_le 3, rfl⟩

/-- The transaction for `r` is under way. -/
def Phase.reads (r : Sensor) : Phase → Prop
  | .idle => False
  | .selected r' => r' = r
  | .reading r' _ => r' = r

theorem poll_phase (h : poll ids s = some s') : s'.phase = s.phase := by
  unfold poll at h
  split at h
  · cases h; rfl
  · simp only at h
    split at h <;> cases h <;> rfl
  · cases h

/-- Only `finish` ends a transaction. -/
theorem reads_step {r : Sensor} {l : Label} (h : s.phase.reads r) (hl : ∀ ret, l ≠ .finish ret)
    (hstep : (link ids idle).step s l = some s') : s'.phase.reads r := by
  cases l with
  | begin r' => rw [(step_begin hstep).1] at h; cases h
  | send => obtain ⟨r', hphase, rfl⟩ := step_send hstep; rw [hphase] at h; exact h
  | read => obtain ⟨r', got, hphase, -, rfl⟩ := step_read hstep; rw [hphase] at h; exact h
  | finish ret => exact absurd rfl (hl ret)
  | handler => cases hstep; exact h
  | poll => rw [poll_phase (step_poll hstep).2]; exact h
  | push => obtain ⟨op, ops, -, rfl⟩ := step_push hstep; exact h
  | pollIBCSensors sensors => obtain ⟨-, rfl⟩ := step_pollIBCSensors hstep; exact h

/-- **A transaction under way.** `H` need only hold of what the requested
variable holds in the states on the way. -/
theorem inv_reading {r : Sensor} (ls : List Label) (s : St) (h : Inv ids H s) (hw : Wake s)
    (hr : s.phase.reads r)
    (hl : ∀ ret, .finish ret ∉ ls) (ht : (link ids idle).Along Timely s ls)
    (hH : ∀ l₁ l₂ t, ls = l₁ ++ l₂ → (link ids idle).exec s l₁ = some t → H (t.mem.get r))
    (hrun : (link ids idle).exec s ls = some s') : Inv ids H s' ∧ s'.phase.reads r := by
  induction ls generalizing s with
  | nil => cases hrun; exact ⟨h, hr⟩
  | cons l ls ih =>
    obtain ⟨t, hstep, hrest⟩ := (link ids idle).exec_cons.mp hrun
    obtain ⟨htime, ht⟩ := ht t hstep
    have hnow : ∀ r' got, s.phase = .reading r' got → H (s.mem.get r') := by
      intro r' got hphase
      rw [hphase] at hr
      cases hr
      exact hH [] (l :: ls) s rfl rfl
    refine ih t (inv_step h hw hnow htime hstep) (wake_step hw hstep)
      (reads_step hr (fun ret he => hl ret (he ▸ List.mem_cons_self ..)) hstep)
      (fun ret hm => hl ret (List.mem_cons_of_mem l hm)) ht ?_ hrest
    intro l₁ l₂ u hls hexec
    exact hH (l :: l₁) l₂ u (by rw [hls]; rfl) ((link ids idle).exec_cons.mpr ⟨t, hstep, hexec⟩)

/-- No reply byte is left, and no command whose reply is still to come. -/
def Drained (s : St) : Prop := s.replies = [] ∧ (scan s.awaiting s.spi.events).1 = []

/-- **Linearizability.** In any timely run, a transaction returns a value that
the requested variable held at one instant between its first step and its
last, and when it ends none of its reply is left. -/
theorem read_linearizable (ids : RegIds) (idle : UInt8) (m : Mem) (before during : List Label)
    (r : Sensor) (ret : UInt16) (s : St)
    (hrun : (link ids idle).exec (boot m) (before ++ .begin r :: (during ++ [.finish ret])) = some s)
    (hduring : ∀ ret, .finish ret ∉ during)
    (htimely : (link ids idle).Along Timely (boot m) (before ++ .begin r :: (during ++ [.finish ret]))) :
    (∃ l₁ l₂ t, during = l₁ ++ l₂ ∧
      (link ids idle).exec (boot m) (before ++ .begin r :: l₁) = some t ∧ t.mem.get r = ret) ∧
    Drained s := by
  obtain ⟨s₀, hbefore, hrest⟩ := (link ids idle).exec_append.mp hrun
  obtain ⟨htbefore, htrest⟩ := ((link ids idle).along_append hbefore).mp htimely
  obtain ⟨s₁, hbegin, hrest⟩ := (link ids idle).exec_cons.mp hrest
  obtain ⟨htbegin, htrest⟩ := htrest s₁ hbegin
  obtain ⟨s₂, hmid, hfinish⟩ := (link ids idle).exec_append.mp hrest
  obtain ⟨htmid, -⟩ := ((link ids idle).along_append hmid).mp htrest
  obtain ⟨s₃, hfinish, hend⟩ := (link ids idle).exec_cons.mp hfinish
  cases hend
  have hinv₀ : Inv ids (fun _ => True) s₀ ∧ Wake s₀ :=
    (link ids idle).exec_inv (fun s => Inv ids (fun _ => True) s ∧ Wake s)
      (fun s l s' hi ht hs => ⟨inv_step hi.1 hi.2 (fun _ _ _ => trivial) ht hs, wake_step hi.2 hs⟩)
      ⟨inv_boot m, wake_boot m⟩ htbefore hbefore
  have hphase : s₁.phase.reads r := by
    obtain ⟨-, rfl⟩ := step_begin hbegin
    rfl
  -- the state at a split of the transaction is the one the whole run reaches there
  have hinstant : ∀ l₁ l₂ t, during = l₁ ++ l₂ → (link ids idle).exec s₁ l₁ = some t →
      ∃ l₁ l₂ t', during = l₁ ++ l₂ ∧
        (link ids idle).exec (boot m) (before ++ .begin r :: l₁) = some t' ∧
          t'.mem.get r = t.mem.get r := by
    intro l₁ l₂ t hsplit hexec
    have hfrom := (link ids idle).exec_cons.mpr ⟨s₁, hbegin, hexec⟩
    exact ⟨l₁, l₂, t, hsplit, (link ids idle).exec_append.mpr ⟨s₀, hbefore, hfrom⟩, rfl⟩
  have hinv₂ := inv_reading
    (H := fun v => ∃ l₁ l₂ t, during = l₁ ++ l₂ ∧
      (link ids idle).exec (boot m) (before ++ .begin r :: l₁) = some t ∧ t.mem.get r = v)
    during s₁ (inv_begin hinv₀.1 htbegin hbegin) (wake_step hinv₀.2 hbegin) hphase hduring htmid
    hinstant hmid
  obtain ⟨hheld, hquiet⟩ := inv_finish hinv₂.1 hfinish
  exact ⟨hheld, hquiet.replies, congrArg Prod.fst hquiet.commands⟩

/-- The steps of a transaction, with the interrupt after each byte and a
`PollIBCSensors` before the command is handled and after the reply has been
queued. -/
def steadyRead (first last : Sensors) : List Label :=
  [.poll, .send, .handler, .pollIBCSensors first, .poll, .push, .push, .push, .push, .push,
    .handler, .read, .pollIBCSensors last, .handler, .read, .handler, .read, .handler]

theorem read_linearizable_steady :
    let old : Sensors := ⟨0x1111, 0, 0, 0, 0, 0, 0, 0, 0, 0⟩
    let m : Mem := ⟨⟨.replicate 20 0, .replicate 20 0, .replicate 20 0⟩, old⟩
    let during := steadyRead { old with vin48 := 0x1234 } { old with vin48 := 0x5678 }
    ∃ s, (link .inOrder 0xff).exec (boot m)
        ([] ++ .begin .ibcVin :: (during ++ [.finish 0x1234])) = some s ∧
      (∃ l₁ l₂ t, during = l₁ ++ l₂ ∧
        (link .inOrder 0xff).exec (boot m) ([] ++ .begin .ibcVin :: l₁) = some t ∧
          t.mem.get .ibcVin = 0x1234) ∧
      Drained s := by
  intro old m during
  obtain ⟨s, hs⟩ := Option.isSome_iff_exists.mp (show ((link .inOrder 0xff).exec (boot m)
    ([] ++ .begin .ibcVin :: (during ++ [.finish 0x1234]))).isSome by decide)
  exact ⟨s, hs, read_linearizable .inOrder 0xff m [] during .ibcVin 0x1234 s hs
    (by simp [during, steadyRead]) (by decide)⟩

end DevBoards.SuperLink
