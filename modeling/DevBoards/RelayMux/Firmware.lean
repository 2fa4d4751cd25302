import DevBoards.Hw.CString
import DevBoards.RelayMux.Board

/-!
# The firmware of the quad-relay-mux

Initialisation (quad-relay-mux/firmware/bsp/hwinit.cpp) and the SCPI handlers
(quad-relay-mux/firmware/main/RelaySCPITask.cpp), as the `Op`s they perform.
`mux` takes one SCPI call a step; its output is what the call prints.
-/
namespace DevBoards.RelayMux

/-- `for(size_t i=0; i<4; i++)` -/
def forEach (f : Fin 4 → List Op) : List Op := (List.finRange 4).flatMap f

/-! ## Initialisation -/

/-- mirrors quad-relay-mux/firmware/bsp/hwinit.cpp:238-253 -/
def setRelay (chan : Fin 4) (dir : Bool) : List Op :=
  [if !dir then .gpio (relayA chan) true else .gpio (relayB chan) true, .sleep 100,
    .gpio (relayA chan) false, .gpio (relayB chan) false]

/-- mirrors quad-relay-mux/firmware/bsp/hwinit.cpp:190-210 -/
def initGPIOs : List Op :=
  [.gpio expanderReset false, .sleep 20, .gpio expanderReset true, .sleep 20] ++
    forEach fun i => [.gpio (relayA i) false, .gpio (relayB i) false]

/-- mirrors quad-relay-mux/firmware/bsp/hwinit.cpp:212-227 -/
def initI2C : List Op := forEach fun i =>
  [.setDirection (muxledA i) false, .led (muxledA i) true,
    .setDirection (muxledB i) false, .led (muxledB i) false]

/-- mirrors quad-relay-mux/firmware/bsp/hwinit.cpp:232-236 -/
def initRelays : List Op := forEach fun i => setRelay i false

/-- The constructor of `scpiTask`.
mirrors quad-relay-mux/firmware/main/RelaySCPITask.cpp:36-41 -/
def appInit : List Op := forEach fun i => [.select i false]

/-- mirrors quad-relay-mux/firmware/bsp/hwinit.cpp:170-177 -/
def bspInit : List Op := initGPIOs ++ initI2C ++ initRelays ++ appInit

/-! ## SCPI -/

def CHAN : CString := ⟨[0x43, 0x48, 0x41, 0x4e], by decide⟩

def MUX : CString := ⟨[0x4d, 0x55, 0x58], by decide⟩

/-- `int nchan = subject[4] - '0'`, if it names a channel. -/
def nchan (subject : CString) : Option (Fin 4) :=
  let nchan : Int := (subject.get 4).toNat - 0x30
  if h : nchan < 0 ∨ nchan > 3 then none else some ⟨nchan.toNat, by omega⟩

/-- mirrors quad-relay-mux/firmware/main/RelaySCPITask.cpp:43-64 -/
def onCommand (subject command args : CString) : List Op :=
  if CString.strstr subject CHAN = some 0 then
    if CString.strcmp command MUX ≠ 0 then []
    else match nchan subject with
      | none => []
      | some nchan =>
        let sel := args.get 0 == 0x42
        [.select nchan sel] ++ setRelay nchan sel ++
          [.led (muxledA nchan) (sel == false), .led (muxledB nchan) (sel == true)]
  else []

/-- mirrors quad-relay-mux/firmware/main/RelaySCPITask.cpp:66-83 -/
def onQuery (s : St) (subject command : CString) : List Op :=
  if CString.strstr subject CHAN = some 0 then
    if CString.strcmp command MUX ≠ 0 then []
    else match nchan subject with
      | none => [.print "A\n"]
      | some nchan => [.print (if s.select nchan then "B\n" else "A\n")]
  else []

inductive Call
  | onCommand (subject command args : CString)
  | onQuery (subject command : CString)

def Call.ops (s : St) : Call → List Op
  | .onCommand subject command args => RelayMux.onCommand subject command args
  | .onQuery subject command => RelayMux.onQuery s subject command

def mux : Machine St Call (List String) where
  step s c := (board.final s (c.ops s), (board.outs s (c.ops s)).reduceOption)

/-- The subject `CHANn`. -/
def chanSubject (n : Fin 4) : CString where
  bytes := [0x43, 0x48, 0x41, 0x4e, 0x30 + UInt8.ofNat n.val]
  nonzero := by revert n; decide

theorem chanSubject_spec (n : Fin 4) :
    CString.strstr (chanSubject n) CHAN = some 0 ∧ nchan (chanSubject n) = some n := by
  revert n; decide

/-- A command does nothing, or runs the body of one channel. -/
theorem onCommand_cases (subject command args : CString) :
    onCommand subject command args = [] ∨ ∃ n sel, onCommand subject command args =
      [Op.select n sel] ++ setRelay n sel ++
        [Op.led (muxledA n) (sel == false), Op.led (muxledB n) (sel == true)] := by
  unfold onCommand
  split
  · split
    · exact .inl rfl
    · cases nchan subject with
      | none => exact .inl rfl
      | some n => exact .inr ⟨n, _, rfl⟩
  · exact .inl rfl

/-- A query does nothing but print. -/
theorem onQuery_cases (s : St) (subject command : CString) :
    onQuery s subject command = [] ∨ ∃ text, onQuery s subject command = [.print text] := by
  unfold onQuery
  split
  · split
    · exact .inl rfl
    · cases nchan subject with
      | none => exact .inr ⟨_, rfl⟩
      | some n => exact .inr ⟨_, rfl⟩
  · exact .inl rfl

end DevBoards.RelayMux
