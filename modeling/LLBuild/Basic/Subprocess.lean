import LLBuild.Basic.BinaryCoding

/-!
# Running a process

`spawnProcess` starts a process, polls its output and its control channel, and waits for it.
What it reports is a function of the results of the system calls, which may fail one by one.
-/

namespace LLBuild.Subprocess

open List

open BinaryCoding

inductive ProcessStatus
  | succeeded
  | failed
  | cancelled

/-- The callbacks of the delegate, and the call of the completion function. -/
inductive Event
  | started
  | hadError (message : Bytes)
  | hadOutput (buf : Bytes)
  | finished (status : ProcessStatus)
  | completed (status : ProcessStatus)

/-- The events every process has to have in their order. -/
def Event.isMark : Event → Bool
  | hadError _ | hadOutput _ => false
  | _ => true

/-! ### The control channel -/

structure ControlProtocolState where
  controlID : Bytes
  negotiated : Bool := false
  partialMsg : Bytes := []
  releaseSeen : Bool := false

/-- `ControlProtocolState::read`, after the bytes `line` of the buffer without a newline: the
new state, the result (zero on success, one on completion) and the error. -/
def ControlProtocolState.read (s : ControlProtocolState) (line : Bytes) :
    Bytes → ControlProtocolState × ℤ × Bytes
  | [] =>
    if line = [] then (s, 0, [])
    else if 16 < s.partialMsg.length + line.length then
      ({ s with partialMsg := [] }, -1, ascii "excessive message length")
    else ({ s with partialMsg := s.partialMsg ++ line }, 0, [])
  | c :: buf =>
    let msg := s.partialMsg ++ line
    if c ≠ 10 then s.read (line ++ [c]) buf
    else if s.negotiated then
      ({ s with partialMsg := [], releaseSeen := s.releaseSeen || msg = s.controlID }, 1,
        ascii "bad ID")
    else if msg = ascii "llbuild.1" then
      { s with negotiated := true, partialMsg := [] }.read [] buf
    else ({ s with partialMsg := [] }, -1, ascii "unsupported protocol: " ++ msg)

/-! ### The system calls -/

/-- The results of `wait4` up to the first that is not interrupted. -/
inductive Wait4
  | interrupted (next : Wait4)
  | failed (err : ℕ)
  | exited (exitCode : ℕ)
  | signaled (signal : ℕ)

/-- A call of `poll`, with what is then read from the output and the control pipe. -/
inductive Poll
  | failed (err : ℕ)
  | ready (output control : Option (Except ℕ Bytes))

def EINTR : ℕ := 4

def EAGAIN : ℕ := 11

/-- The attributes of a process and the results of the system calls, a number for an error.
After the polls that are listed the pipes are at their ends. -/
structure Outcomes where
  commandLine : List Bytes
  taskID : Bytes := []
  connectToConsole : Bool := false
  controlEnabled : Bool := true
  addchdirFails : Bool := false
  isClosed : Bool := false
  outputPipe : Option ℕ := none
  controlPipe : Option ℕ := none
  spawn : Option ℕ := none
  polls : List Poll
  releasedReads : List (Except ℕ Bytes) := []
  wait4 : Wait4 := .exited 0

variable (strerror : ℕ → Bytes)

def errorText (what : String) (err : ℕ) : Bytes :=
  ascii what ++ ascii " (" ++ strerror err ++ ascii ")"

def captureExecutedProcessOutput : List (Except ℕ Bytes) → List Event
  | [] | .ok [] :: _ => []
  | .error err :: _ => [.hadError (errorText strerror "unable to read process output" err)]
  | .ok buf :: reads => .hadOutput buf :: captureExecutedProcessOutput reads

def cleanUpExecutedProcess : Wait4 → List Event
  | .interrupted next => cleanUpExecutedProcess next
  | .failed err =>
    [.hadError (errorText strerror "unable to wait for process" err), .finished .failed,
      .completed .failed]
  | .exited exitCode =>
    let status := if exitCode = 0 then .succeeded else .failed
    [.finished status, .completed status]
  | .signaled signal =>
    -- an interrupt or a kill
    let status := if signal = 2 ∨ signal = 9 then .cancelled else .failed
    [.finished status, .completed status]

/-- A pipe after a poll: what is reported, and whether the pipe is polled again. -/
def readPipe (callback : Bytes → List Event × Bool) (events : Bool) :
    Option (Except ℕ Bytes) → List Event × Bool
  | none => ([], events)
  | some (.error err) =>
    ([.hadError (errorText strerror "unable to read process output" err)], false)
  | some (.ok []) => ([], false)
  | some (.ok buf) => ((callback buf).1, events && (callback buf).2)

/-- The callback of the control channel. -/
def controlCallback (control : ControlProtocolState) (buf : Bytes) : List Event × Bool :=
  let (_, ret, errstr) := control.read [] buf
  (if ret < 0 then [.hadError (ascii "control protocol error" ++ errstr)] else [], ret = 0)

namespace Outcomes

variable (o : Outcomes)

/-- The loop over the polls, with the pipes that are polled. -/
def pollLoop : Bool → Bool → ControlProtocolState → List Poll → List Event
  | false, false, _, _ | _, _, _, [] => cleanUpExecutedProcess strerror o.wait4
  | output, control, state, .failed err :: polls =>
    if err = EAGAIN ∨ err = EINTR then pollLoop output control state polls
    else [.hadError (errorText strerror "failed to poll" err)]
  | output, control, state, .ready outputRead controlRead :: polls =>
    let fromOutput := readPipe strerror (fun buf => ([.hadOutput buf], true)) output outputRead
    let fromControl := readPipe strerror (controlCallback state) control controlRead
    let state := match controlRead with
      | some (.ok buf) => (state.read [] buf).1
      | _ => state
    fromOutput.1 ++ fromControl.1 ++
      if state.releaseSeen then
        captureExecutedProcessOutput strerror o.releasedReads ++
          cleanUpExecutedProcess strerror o.wait4
      else pollLoop fromOutput.2 fromControl.2 state polls

def createCommunicationPipes : Option Bytes :=
  match o.connectToConsole, o.outputPipe, o.controlEnabled, o.controlPipe with
  | false, some err, _, _ => some (errorText strerror "unable to open output pipe" err)
  | false, none, true, some err => some (errorText strerror "unable to open control pipe" err)
  | _, _, _, _ => none

/-- What is reported for a process that is not started. -/
def abort (message : Bytes) : List Event :=
  [.started, .hadError message, .finished .failed, .completed .failed]

def spawnProcess : List Event :=
  match o.commandLine with
  | [] => abort (ascii "no arguments for command")
  | executable :: _ =>
    if o.addchdirFails then abort (ascii "failed to set the working directory")
    else if o.isClosed then [.completed .cancelled]
    else match o.createCommunicationPipes strerror, o.spawn with
      | some message, _ => abort message
      | none, some err =>
        abort (ascii "unable to spawn process '" ++ executable ++ errorText strerror "'" err)
      | none, none =>
        .started :: o.pollLoop strerror (!o.connectToConsole)
          (o.controlEnabled && !o.connectToConsole) { controlID := o.taskID } o.polls

end Outcomes

/-! ### The marks of a process -/

open Event

theorem filter_captureExecutedProcessOutput (reads : List (Except ℕ Bytes)) :
  (captureExecutedProcessOutput strerror reads).filter isMark = []
  := by
  fun_induction captureExecutedProcessOutput strerror reads <;> simp_all [isMark]

theorem filter_cleanUpExecutedProcess (w : Wait4) :
  ∃ status, (cleanUpExecutedProcess strerror w).filter isMark
    = [.finished status, .completed status]
  := by
  induction w with
  | interrupted next ih => apply ih
  | failed | exited | signaled => exact ⟨_, rfl⟩

theorem filter_readPipe
    {callback : Bytes → List Event × Bool} (h : ∀ buf, (callback buf).1.filter isMark = [])
    (events : Bool) (r : Option (Except ℕ Bytes)) :
  (readPipe strerror callback events r).1.filter isMark = []
  := by
  rcases r with _ | _ | ⟨_ | _⟩
  · rfl
  · rfl
  · rfl
  · apply h

theorem filter_controlCallback (control : ControlProtocolState) (buf : Bytes) :
  (controlCallback control buf).1.filter isMark = []
  := by
  unfold controlCallback
  dsimp only
  split <;> rfl

namespace Outcomes

/-- The loop ends with the marks of the end of the process, if no poll fails for good. -/
theorem filter_pollLoop
    (o : Outcomes) (output control : Bool) (state : ControlProtocolState) (polls : List Poll)
    (h : ∀ err, Poll.failed err ∈ polls → err = EAGAIN ∨ err = EINTR) :
  ∃ status, (o.pollLoop strerror output control state polls).filter isMark
    = [.finished status, .completed status]
  := by
  have hw := filter_cleanUpExecutedProcess strerror o.wait4
  fun_induction pollLoop strerror o output control state polls with
  | case1 | case2 => apply hw
  | case3 output control state err polls _ _ ih => exact ih fun e he => h e (.tail _ he)
  | case4 output control state err polls _ herr => exact absurd (h err (.head _)) herr
  | case5 output control state outputRead controlRead polls _ fromOutput fromControl _ ih =>
    have ho : fromOutput.1.filter isMark = [] := filter_readPipe _ (fun _ => rfl) _ _
    have hc : fromControl.1.filter isMark = [] :=
      filter_readPipe _ (filter_controlCallback _) _ _
    rw [filter_append, filter_append, ho, hc]
    split
    · rw [filter_append, filter_captureExecutedProcessOutput]
      apply hw
    · exact ih fun e he => h e (.tail _ he)

/-- If no poll fails but to be tried again, the completion function is called exactly once, and
last, and every start is followed by exactly one end. -/
theorem filter_spawnProcess
    (o : Outcomes) (h : ∀ err, Poll.failed err ∈ o.polls → err = EAGAIN ∨ err = EINTR) :
  ∃ status, (o.spawnProcess strerror).filter isMark
      = [.started, .finished status, .completed status]
    ∨ (o.spawnProcess strerror).filter isMark = [.completed status]
  := by
  unfold spawnProcess
  split
  · exact ⟨_, .inl rfl⟩
  split
  · exact ⟨_, .inl rfl⟩
  split
  · exact ⟨_, .inr rfl⟩
  split
  · exact ⟨_, .inl rfl⟩
  · exact ⟨_, .inl rfl⟩
  · obtain ⟨status, hs⟩ := o.filter_pollLoop strerror _ _ _ _ h
    exact ⟨status, .inl (congrArg _ hs)⟩

/-- A process with some polls. -/
def lsOutcomes (polls : List Poll) : Outcomes := { commandLine := [ascii "ls"], polls }

theorem filter_spawnProcess_interrupted :
  ∃ status, (lsOutcomes [.failed EINTR] |>.spawnProcess fun _ => []).filter isMark
      = [.started, .finished status, .completed status]
    ∨ (lsOutcomes [.failed EINTR] |>.spawnProcess fun _ => []).filter isMark
      = [.completed status]
  := by
  apply filter_spawnProcess
  rintro err (_ | ⟨_, ⟨⟩⟩)
  exact .inr rfl

/-- A poll that runs out of memory: there is no end, and the completion function is not
called. -/
theorem filter_spawnProcess_of_failed_poll :
  (lsOutcomes [.failed 12] |>.spawnProcess fun _ => []).filter isMark = [.started]
  := by
  rfl

end Outcomes

/-! ### The release from the lane -/

/-- The reads of the control channel in the loop, with whether the channel was polled for data.
If it was not, it is read because it hung up. -/
def controlReads : Bool → Bool → ControlProtocolState → List Poll → List (Bool × Bytes)
  | false, false, _, _ | _, _, _, [] => []
  | output, control, state, .failed err :: polls =>
    if err = EAGAIN ∨ err = EINTR then controlReads output control state polls else []
  | output, control, state, .ready outputRead controlRead :: polls =>
    let fromOutput := readPipe strerror (fun buf => ([.hadOutput buf], true)) output outputRead
    let fromControl := readPipe strerror (controlCallback state) control controlRead
    match controlRead with
    | some (.ok (c :: buf)) =>
      let state := (state.read [] (c :: buf)).1
      (control, c :: buf) ::
        if state.releaseSeen then [] else controlReads fromOutput.2 fromControl.2 state polls
    | _ => controlReads fromOutput.2 fromControl.2 state polls

/-- The messages that release the process. -/
def releaseMessage (id : Bytes) : Bytes := ascii "llbuild.1" ++ 10 :: (id ++ [10])

/-- The state of a channel without a fault after some bytes. -/
def ControlProtocolState.After (s : ControlProtocolState) (got : Bytes) : Prop :=
  s.releaseSeen = false ∧ 10 ∉ s.partialMsg
    ∧ got = (if s.negotiated then ascii "llbuild.1" ++ [10] else []) ++ s.partialMsg

variable {s : ControlProtocolState}

/-- Without a fault there was at most one newline. -/
theorem ControlProtocolState.After.not_prefix {got : Bytes} (h : s.After got) :
  ¬ releaseMessage s.controlID <+: got
  := by
  obtain ⟨-, hpending, rfl⟩ := h
  have hproto : (ascii "llbuild.1").count 10 = 0 := by decide
  intro hprefix
  have hle := hprefix.sublist.count_le 10
  rw [count_append, count_eq_zero.mpr hpending] at hle
  split at hle <;> simp [releaseMessage] at hle

theorem line_prefix_iff {a b x y : Bytes} (ha : 10 ∉ a) (hb : 10 ∉ b) :
  a ++ 10 :: x <+: b ++ 10 :: y ↔ a = b ∧ x <+: y
  := by
  constructor
  · rintro ⟨t, ht⟩
    rw [append_assoc, cons_append] at ht
    rcases append_eq_append_iff.mp ht with ⟨c, rfl, hc⟩ | ⟨c, rfl, hc⟩
    all_goals
      cases c with
      | nil =>
        obtain ⟨-, hc⟩ := cons.inj hc
        exact ⟨by simp, t, by simp [hc]⟩
      | cons d c =>
        obtain ⟨rfl, -⟩ := cons.inj hc
        simp at ha hb
  · rintro ⟨rfl, t, rfl⟩
    exact ⟨t, by simp⟩

/-- What a read does to a channel without a fault: there is no fault yet, or it is decided
whether the process is released. -/
theorem ControlProtocolState.read_spec
    {got : Bytes} (line buf : Bytes) (h : s.After got)
    (hline : 10 ∉ line) (hid : 10 ∉ s.controlID) :
  (s.read line buf).1.controlID = s.controlID
    ∧ if (s.read line buf).2.1 = 0 then (s.read line buf).1.After (got ++ line ++ buf)
      else ((s.read line buf).1.releaseSeen ↔ releaseMessage s.controlID <+: got ++ line ++ buf)
  := by
  obtain ⟨hseen, hpending, hgot⟩ := h
  have hproto : (10 : UInt8) ∉ ascii "llbuild.1" := by decide
  fun_induction ControlProtocolState.read s line buf generalizing got with
  | case1 s => exact ⟨rfl, by simpa using ⟨hseen, hpending, hgot⟩⟩
  | case2 s line hne hlen =>
    have hafter : ({ s with partialMsg := s.partialMsg ++ line } : ControlProtocolState).After
      (got ++ line ++ []) := ⟨hseen, by simp [hpending, hline], by simp [hgot]⟩
    exact ⟨rfl, iff_of_false (by simp [hseen]) hafter.not_prefix⟩
  | case3 s line hne hlen =>
    exact ⟨rfl, hseen, by simp [hpending, hline], by simp [hgot]⟩
  | case4 s line c buf hc ih =>
    simpa using ih (by simp [hline, Ne.symm hc]) hid hseen hpending hgot
  | case5 s line c buf msg hc =>
    obtain rfl : c = 10 := not_not.mp hc
    have hn : s.negotiated = true := by assumption
    have hmsg : 10 ∉ s.partialMsg ++ line := by simp [hpending, hline]
    have hiff := line_prefix_iff (x := s.controlID ++ [10])
      (y := s.partialMsg ++ line ++ 10 :: buf) hproto hproto
    rw [line_prefix_iff hid hmsg] at hiff
    simpa [hgot, hn, releaseMessage, hseen, eq_comm] using hiff.symm
  | case6 s line c buf msg hc hn hmsg =>
    rename_i ih
    obtain rfl : c = 10 := not_not.mp hc
    have hgot' : got ++ line = ascii "llbuild.1" := by simpa [hgot, hn] using hmsg
    have h := ih not_mem_nil hid hseen not_mem_nil rfl
    simpa [hgot'] using h
  | case7 s line c buf msg hc hn =>
    have hmsg : msg ≠ ascii "llbuild.1" := by assumption
    obtain rfl : c = 10 := not_not.mp hc
    have hmsg' : 10 ∉ s.partialMsg ++ line := by simp [hpending, hline]
    have hiff := line_prefix_iff (x := s.controlID ++ [10]) (y := buf) hproto hmsg'
    have hne := Ne.symm hmsg
    simp [hgot, hn, releaseMessage, hseen] at hiff hne ⊢
    rw [hiff]
    exact fun h => hne h.1

/-- A channel that is no longer polled stays so: it is not read if it is read only when polled. -/
theorem controlReads_of_not_polled
    {output control : Bool} {polls : List Poll} (hcontrol : control = false)
    (hpolled : ∀ r ∈ controlReads strerror output control s polls, r.1 = true) :
  controlReads strerror output control s polls = []
  := by
  have hpipe : ∀ callback r, (readPipe strerror callback false r).2 = false := by
    intro callback r
    rcases r with _ | _ | ⟨_ | _⟩ <;> rfl
  fun_induction controlReads strerror output control s polls with
  | case1 | case2 | case4 => rfl
  | case3 output control s err polls _ _ ih => exact ih hcontrol hpolled
  | case5 =>
    have htrue := hpolled _ mem_cons_self
    simp [hcontrol] at htrue
  | case6 =>
    rename_i ih
    subst hcontrol
    exact ih (hpipe _ _) hpolled

/-- In a loop that reads the channel only while it is polled, the process is released iff the
bytes begin with the messages. -/
theorem releaseSeen_controlReads
    {output control : Bool} {polls : List Poll} {got : Bytes}
    (h : s.After got) (hid : 10 ∉ s.controlID)
    (hpolled : ∀ r ∈ controlReads strerror output control s polls, r.1 = true) :
  ((controlReads strerror output control s polls).foldl
      (fun s r => (s.read [] r.2).1) s).releaseSeen
    ↔ releaseMessage s.controlID
      <+: got ++ (controlReads strerror output control s polls).flatMap Prod.snd
  := by
  fun_induction controlReads strerror output control s polls generalizing got with
  | case1 | case2 | case4 =>
    simpa [h.1] using h.not_prefix
  | case3 output control s err polls _ _ ih => exact ih h hid hpolled
  | case5 output control s outputRead polls =>
    rename_i _ fromOutput c buf state fromControl ih
    obtain ⟨hcontrolID, hread⟩ := s.read_spec [] (c :: buf) h not_mem_nil hid
    obtain ⟨-, hpolled⟩ := forall_mem_cons.mp hpolled
    rw [flatMap_cons, ← append_assoc]
    rw [append_nil] at hread
    by_cases hret : (s.read [] (c :: buf)).2.1 = 0
    · rw [if_pos hret] at hread
      have hseen : state.releaseSeen = false := hread.1
      simp only [hseen] at hpolled ⊢
      rw [← hcontrolID] at hid ⊢
      exact ih hread hid hpolled
    · rw [if_neg hret] at hread
      have hcontrol : fromControl.2 = false := by
        simp [fromControl, readPipe, controlCallback, hret]
      have hrest : (if state.releaseSeen = true then []
          else controlReads strerror fromOutput.2 fromControl.2 state polls) = [] := by
        split_ifs at hpolled ⊢
        · rfl
        · exact controlReads_of_not_polled strerror hcontrol hpolled
      rw [hrest, flatMap_nil, append_nil]
      exact hread
  | case6 =>
    rename_i ih
    exact ih h hid hpolled

namespace Outcomes

variable (o : Outcomes)

/-- What is read from the control channel of a process. -/
def received : List (Bool × Bytes) :=
  controlReads strerror (!o.connectToConsole) (o.controlEnabled && !o.connectToConsole)
    { controlID := o.taskID } o.polls

/-- Whether the process is released from its lane. -/
def released : Bool :=
  ((o.received strerror).foldl (fun s r => (s.read [] r.2).1)
    ({ controlID := o.taskID } : ControlProtocolState)).releaseSeen

/-- If nothing is read from the control channel once it is no longer polled, a process is
released iff the bytes received begin with the protocol line and the line of its id. -/
theorem released_iff (hid : 10 ∉ o.taskID) (hpolled : ∀ r ∈ o.received strerror, r.1 = true) :
  o.released strerror ↔ releaseMessage o.taskID <+: (o.received strerror).flatMap Prod.snd
  := by
  have hafter : ControlProtocolState.After { controlID := o.taskID } [] := ⟨rfl, not_mem_nil, rfl⟩
  exact releaseSeen_controlReads strerror hafter hid hpolled

/-- A process that sends some bytes in pieces, and then closes the channel. -/
def sender (pieces : List String) : Outcomes where
  commandLine := [ascii "ls"]
  taskID := ascii "2A"
  polls := pieces.map (fun piece => .ready none (some (.ok (ascii piece))))

theorem released_iff_pieces :
  (sender ["llbu", "ild.1\n2", "A\n"]).released (fun _ => []) = true
  := by
  rw [released_iff (fun _ => []) _ (by decide +kernel) (by decide +kernel)]
  exact ⟨[], by decide +kernel⟩

/-- The process speaks another protocol, and then the right one before it hangs up: it is
released. -/
theorem released_of_error :
  (sender ["llbuild.2\n", "llbuild.1\n2A\n"]).released (fun _ => []) = true
    ∧ ¬ releaseMessage (ascii "2A") <+: ascii "llbuild.2\nllbuild.1\n2A\n"
  := by decide +kernel

end Outcomes

end LLBuild.Subprocess
