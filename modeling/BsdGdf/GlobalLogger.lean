/-
The class `GlobalLogger`: formatted lines for a string or a file descriptor.

A `LOG` statement ends with the destructor of its `LogStream`, which compares the level
of the statement with the one in force and hands the message to `Log`.  `Log` appends
the line to the string, or calls `write()` once.

`LogSpec` is what the logger is for: a level, a target, and the list of whole lines
delivered so far, each with its target.  It knows nothing of `write()`.

* `refines_step` — the logger keeps the level and the target of its specification;
* `received_step` — what a target receives in a call is the line that the specification
  delivers to it, or the part of it that `write()` took;
* `wholeLines_iff` — over every run, each target has received exactly the lines
  delivered to it, if and only if no `write()` takes a line only in part.
-/
import BsdGdf.DisplayBuffer
import BsdGdf.Runs

namespace Gdf

open Runs

/-- `eSeverityLevel`. -/
inductive eSeverityLevel
  | Emergency
  | Alert
  | Critical
  | Error
  | Warning
  | Notice
  | Informational
  | Debug
  deriving DecidableEq, Repr

/-- The number of a level. -/
def eSeverityLevel.number : eSeverityLevel → ℕ
  | .Emergency => 0
  | .Alert => 1
  | .Critical => 2
  | .Error => 3
  | .Warning => 4
  | .Notice => 5
  | .Informational => 6
  | .Debug => 7

/-- `mLevelStr`. -/
def mLevelStr : eSeverityLevel → Bytes
  | .Emergency => chars "Emergency".toList
  | .Alert => chars "Alert".toList
  | .Critical => chars "Critical".toList
  | .Error => chars "Error".toList
  | .Warning => chars "Warning".toList
  | .Notice => chars "Notice".toList
  | .Informational => chars "Informational".toList
  | .Debug => chars "Debug".toList

/-- The fields of `struct tm` that a line shows. -/
structure LogTm extends Tm where
  tm_year : ℤ
  tm_mon : ℤ
  tm_mday : ℤ
  tm_sec : ℤ
  deriving DecidableEq, Repr

/-- What a `LogStream` holds when it goes: its members, and what was streamed into
it. -/
structure LogStream where
  mLevel : eSeverityLevel
  mFunctionName : Bytes
  mFileName : Bytes
  mLineNumber : ℤ
  mStream : Bytes
  deriving DecidableEq, Repr

/-- What the logger does: it appends to the string at an address, or it calls `write()`,
which fails or accepts a number of bytes. -/
inductive LogAct
  | append (str : UInt64) (bytes : Bytes)
  | write (fd : int32) (handed : Bytes) (ret : Option ℕ)
  /-- The `write(1, ...)` of `SetTarget(0)`. -/
  | warn (handed : Bytes) (ret : Option ℕ)
  deriving DecidableEq, Repr

/-- `class GlobalLogger`; a null `mStringTarget` is 0. -/
structure GlobalLogger where
  bIsStringTarget : Bool
  mStringTarget : UInt64
  mFDTarget : int32
  mLevel : eSeverityLevel
  mHostname : Bytes
  deriving DecidableEq, Repr

namespace GlobalLogger

/-- `GlobalLogger()`; `hostname` is what `gethostname()` leaves in the array. -/
def new (hostname : Bytes) : GlobalLogger where
  bIsStringTarget := false
  mStringTarget := 0
  mFDTarget := 1
  mLevel := .Informational
  mHostname := hostname

/-- `getCurrentTime()`. -/
def getCurrentTime (localTime : LogTm) : Bytes :=
  decimal (localTime.tm_year + 1900) ++ chars ['-']
    ++ DisplayBuffer.twoDigits (localTime.tm_mon + 1) ++ chars ['-']
    ++ DisplayBuffer.twoDigits localTime.tm_mday ++ chars ['T']
    ++ DisplayBuffer.twoDigits localTime.tm_hour ++ chars [':']
    ++ DisplayBuffer.twoDigits localTime.tm_min ++ chars [':']
    ++ DisplayBuffer.twoDigits localTime.tm_sec

/-- The line that `Log(level, message, functionName, fileName, lineNumber)` puts
together. -/
def line (hostname : Bytes) (s : LogStream) (localTime : LogTm) : Bytes :=
  chars ['['] ++ mLevelStr s.mLevel ++ chars [']', ' ']
    ++ getCurrentTime localTime ++ chars [' ']
    ++ cstr hostname ++ chars [' ', ':', ' ']
    ++ s.mStream
    ++ (if s.mLevel = .Debug then
        chars [' ', '-', '>', ' '] ++ cstr s.mFileName ++ chars [':'] ++ decimal s.mLineNumber
          ++ chars [':', ' '] ++ cstr s.mFunctionName
      else [])
    ++ chars ['\n']

/-- `Log(level, message, functionName, fileName, lineNumber)`. -/
def log (lg : GlobalLogger) (s : LogStream) (localTime : LogTm) (wrote : Option ℕ) :
    List LogAct :=
  let toWriteString := line lg.mHostname s localTime
  if lg.bIsStringTarget then
    [.append lg.mStringTarget toWriteString]
  else
    -- what `write()` returns is not looked at
    [.write lg.mFDTarget toWriteString wrote]

/-- `~LogStream()`. -/
def endStatement (lg : GlobalLogger) (s : LogStream) (localTime : LogTm) (wrote : Option ℕ) :
    List LogAct :=
  if s.mLevel.number ≤ lg.mLevel.number then lg.log s localTime wrote else []

/-- `SetTarget(str)`. -/
def setTargetString (lg : GlobalLogger) (str : UInt64) : GlobalLogger :=
  { lg with mStringTarget := str, bIsStringTarget := true }

/-- The string literal that `SetTarget(0)` writes, with its terminator: 61 bytes. -/
def stdinWarning : Bytes :=
  chars "GlobalLogger: LOG_SET_TARGET gets stdin(0) file descriptor.\n".toList ++ [0]

/-- `SetTarget(fd)`. -/
def setTargetFd (lg : GlobalLogger) (fd : int32) (wrote : Option ℕ) :
    GlobalLogger × List LogAct :=
  let acts := if fd = 0 then [.warn stdinWarning wrote] else []
  ({ lg with mFDTarget := fd, bIsStringTarget := false }, acts)

/-- `SetLevel(level)`. -/
def setLevel (lg : GlobalLogger) (level : eSeverityLevel) : GlobalLogger :=
  { lg with mLevel := level }

end GlobalLogger

/-- A statement ends, or the target or the level is changed; with the time and what
`write()` returns. -/
inductive LogCall
  | log (s : LogStream) (localTime : LogTm) (wrote : Option ℕ)
  | setTargetString (str : UInt64)
  | setTargetFd (fd : int32) (wrote : Option ℕ)
  | setLevel (level : eSeverityLevel)
  deriving DecidableEq, Repr

/-- Perform a call. -/
def GlobalLogger.step (lg : GlobalLogger) : LogCall → GlobalLogger × List LogAct
  | .log s localTime wrote => (lg, lg.endStatement s localTime wrote)
  | .setTargetString str => (lg.setTargetString str, [])
  | .setTargetFd fd wrote => lg.setTargetFd fd wrote
  | .setLevel level => (lg.setLevel level, [])

/-- A step of a run. -/
abbrev LogEvent := Event GlobalLogger LogCall (List LogAct)

/-! ### What the logger is for -/

/-- Where lines go. -/
inductive LogTarget
  | string (str : UInt64)
  | fd (fd : int32)
  deriving DecidableEq, Repr

/-- A level, a target, and the lines delivered so far. -/
structure LogSpec where
  level : eSeverityLevel
  target : LogTarget
  delivered : List (LogTarget × Bytes)
  deriving DecidableEq, Repr

namespace LogSpec

/-- Lines of up to `Informational` for the standard output, none yet. -/
def init : LogSpec := ⟨.Informational, .fd 1, []⟩

/-- A statement delivers its whole line to the target in force, if its level is at most
the one in force. -/
def next (hostname : Bytes) (sp : LogSpec) : LogCall → LogSpec
  | .log s localTime _ =>
    if s.mLevel.number ≤ sp.level.number then
      { sp with
        delivered := sp.delivered ++ [(sp.target, GlobalLogger.line hostname s localTime)] }
    else sp
  | .setTargetString str => { sp with target := .string str }
  | .setTargetFd fd _ => { sp with target := .fd fd }
  | .setLevel level => { sp with level := level }

/-- The lines delivered to a target, one after the other. -/
def linesFor (t : LogTarget) (sp : LogSpec) : Bytes :=
  sp.delivered.flatMap fun d => if d.1 = t then d.2 else []

end LogSpec

/-- The specification after a run. -/
def logSpec (hostname : Bytes) (es : List LogEvent) : LogSpec :=
  es.foldl (fun sp e => sp.next hostname e.input) .init

/-- The bytes of log lines that a target receives in an action. -/
def LogAct.received (t : LogTarget) : LogAct → Bytes
  | .append str bytes => if .string str = t then bytes else []
  | .write fd handed (some n) => if .fd fd = t then handed.take n else []
  | .write _ _ none => []
  | .warn _ _ => []

/-- The bytes of log lines that a target has received so far. -/
def takenBy (t : LogTarget) (es : List LogEvent) : Bytes :=
  es.flatMap fun e => e.output.flatMap (LogAct.received t)

/-- A `write()` of a line succeeds: it takes at least one byte of what it is handed. -/
def LogAct.Ok : LogAct → Prop
  | .write _ handed (some n) => 1 ≤ n ∧ n ≤ handed.length
  | .write _ _ none => False
  | _ => True

instance : DecidablePred LogAct.Ok
  | .write _ _ (some _) => inferInstanceAs (Decidable (_ ∧ _))
  | .write _ _ none => isFalse id
  | .append _ _ => isTrue trivial
  | .warn _ _ => isTrue trivial

/-- The kernel takes something of every line. -/
def LogWriteOk (lg : GlobalLogger) (c : LogCall) : Prop := ∀ act ∈ (lg.step c).2, act.Ok

instance (lg : GlobalLogger) (c : LogCall) : Decidable (LogWriteOk lg c) :=
  inferInstanceAs (Decidable (∀ act ∈ (lg.step c).2, act.Ok))

/-- If the statement is of a level in force and goes to a descriptor, `write()` takes its
whole line. -/
def TakesLine (lg : GlobalLogger) : LogCall → Prop
  | .log s localTime wrote =>
    s.mLevel.number ≤ lg.mLevel.number → lg.bIsStringTarget = false →
      wrote = some (GlobalLogger.line lg.mHostname s localTime).length
  | _ => True

variable {lg : GlobalLogger} {sp : LogSpec} {hostname : Bytes} {c : LogCall} {t : LogTarget}

theorem logSpec_concat (es : List LogEvent) (e : LogEvent) :
    logSpec hostname (es ++ [e]) = (logSpec hostname es).next hostname e.input := by
  simp only [logSpec, List.foldl_append, List.foldl_cons, List.foldl_nil]

theorem takenBy_concat (es : List LogEvent) (e : LogEvent) :
    takenBy t (es ++ [e]) = takenBy t es ++ e.output.flatMap (LogAct.received t) := by
  simp [takenBy]

/-- The target in force. -/
def GlobalLogger.target (lg : GlobalLogger) : LogTarget :=
  if lg.bIsStringTarget then .string lg.mStringTarget else .fd lg.mFDTarget

/-- The logger has the level and the target of its specification. -/
structure Refines (hostname : Bytes) (lg : GlobalLogger) (sp : LogSpec) : Prop where
  hostname : lg.mHostname = hostname
  level : lg.mLevel = sp.level
  target : lg.target = sp.target

theorem refines_new (hostname : Bytes) : Refines hostname (.new hostname) .init := ⟨rfl, rfl, rfl⟩

/-- Every call keeps them. -/
theorem refines_step (h : Refines hostname lg sp) (c : LogCall) :
    Refines hostname (lg.step c).1 (sp.next hostname c) := by
  cases c with
  | log s localTime wrote =>
    show Refines hostname lg (if _ then _ else _)
    split
    · exact ⟨h.hostname, h.level, h.target⟩
    · exact h
  | setTargetString str => exact ⟨h.hostname, h.level, rfl⟩
  | setTargetFd fd wrote => exact ⟨h.hostname, h.level, rfl⟩
  | setLevel level => exact ⟨h.hostname, rfl, h.target⟩

/-- The line a call delivers to the target in force, if it delivers one. -/
def lineOf (lg : GlobalLogger) : LogCall → Bytes
  | .log s localTime _ =>
    if s.mLevel.number ≤ lg.mLevel.number then GlobalLogger.line lg.mHostname s localTime else []
  | _ => []

theorem linesFor_next (h : Refines hostname lg sp) (c : LogCall) (t : LogTarget) :
    (sp.next hostname c).linesFor t =
      sp.linesFor t ++ if lg.target = t then lineOf lg c else [] := by
  cases c with
  | log s localTime wrote =>
    simp only [LogSpec.next, lineOf, h.level, h.hostname, h.target]
    by_cases hlevel : s.mLevel.number ≤ sp.level.number
    · rw [if_pos hlevel, if_pos hlevel]
      simp [LogSpec.linesFor]
    · rw [if_neg hlevel, if_neg hlevel, ite_self, List.append_nil]
  | _ => simp [LogSpec.next, LogSpec.linesFor, lineOf]

theorem received_setTargetFd (lg : GlobalLogger) (fd : int32) (wrote : Option ℕ)
    (t : LogTarget) : (lg.step (.setTargetFd fd wrote)).2.flatMap (LogAct.received t) = [] := by
  by_cases hfd : fd = 0 <;>
    simp [GlobalLogger.step, GlobalLogger.setTargetFd, hfd, LogAct.received]

/-- What a target receives in a call: nothing, or as much of the line as was taken. -/
theorem received_step (lg : GlobalLogger) (c : LogCall) (t : LogTarget)
    (hok : LogWriteOk lg c) :
    ∃ n, (lg.step c).2.flatMap (LogAct.received t) =
        (if lg.target = t then (lineOf lg c).take n else []) ∧
      ((lineOf lg c).length ≤ n ↔ TakesLine lg c) := by
  cases c with
  | log s localTime wrote =>
    by_cases hlevel : s.mLevel.number ≤ lg.mLevel.number
    case neg =>
      -- a statement above the level
      refine ⟨0, ?_, fun _ h => absurd h hlevel, fun _ => ?_⟩
      · simp [GlobalLogger.step, GlobalLogger.endStatement, if_neg hlevel]
      · simp [lineOf, if_neg hlevel]
    have hline : lineOf lg (.log s localTime wrote) =
        GlobalLogger.line lg.mHostname s localTime := if_pos hlevel
    rw [hline]
    cases hstr : lg.bIsStringTarget with
    | true =>
      refine ⟨(GlobalLogger.line lg.mHostname s localTime).length, ?_, fun _ _ hfd => ?_,
        fun _ => le_rfl⟩
      · simp [GlobalLogger.step, GlobalLogger.endStatement, if_pos hlevel, GlobalLogger.log,
          GlobalLogger.target, hstr, LogAct.received]
      · exact absurd (hstr.symm.trans hfd) (by simp)
    | false =>
      have hacts : (lg.step (.log s localTime wrote)).2 =
          [.write lg.mFDTarget (GlobalLogger.line lg.mHostname s localTime) wrote] := by
        simp [GlobalLogger.step, GlobalLogger.endStatement, if_pos hlevel, GlobalLogger.log, hstr]
      have hwrite : (LogAct.write lg.mFDTarget (GlobalLogger.line lg.mHostname s localTime)
          wrote).Ok := hok _ (by rw [hacts]; exact List.mem_singleton_self _)
      obtain _ | n := wrote
      · exact hwrite.elim
      have hle := hwrite.2
      refine ⟨n, ?_, fun hn _ _ => ?_, fun h => ?_⟩
      · rw [hacts]
        simp [LogAct.received, GlobalLogger.target, hstr]
      · exact congrArg some (le_antisymm hle hn)
      · exact (Option.some.inj (h hlevel hstr)).ge
  | setTargetString str =>
    exact ⟨0, by simp [GlobalLogger.step, lineOf], by simp [lineOf, TakesLine]⟩
  | setTargetFd fd wrote =>
    refine ⟨0, ?_, by simp [lineOf, TakesLine]⟩
    rw [received_setTargetFd]
    simp [lineOf]
  | setLevel level => exact ⟨0, by simp [GlobalLogger.step, lineOf], by simp [lineOf, TakesLine]⟩

/-- The specification so far, and every target with the lines delivered to it. -/
structure Receives (hostname : Bytes) (es : List LogEvent) (lg : GlobalLogger) : Prop where
  refines : Refines hostname lg (logSpec hostname es)
  received : ∀ t, takenBy t es = (logSpec hostname es).linesFor t

/-- **When the log target receives whole lines.**  Over every run of statements and
changes of the level and of the target, in which every `write()` of a line succeeds:
each target has always received exactly the complete lines of the statements of a
level in force, in order, while it was the target — if and only if no `write()` takes
a line only in part. -/
theorem wholeLines_iff {calls : List LogCall}
    (hkernel : Along GlobalLogger.step (.new hostname) (fun _ lg c => LogWriteOk lg c) calls) :
    Always GlobalLogger.step (.new hostname)
        (fun es _ => ∀ t, takenBy t es = (logSpec hostname es).linesFor t) calls ↔
      Along GlobalLogger.step (.new hostname) (fun _ lg c => TakesLine lg c) calls := by
  have hnew : Receives hostname [] (.new hostname) := ⟨refines_new hostname, fun _ => rfl⟩
  refine always_iff_along (I := Receives hostname) (K := fun _ lg c => LogWriteOk lg c)
    hnew hnew.received ?_ ?_ hkernel
  · intro es lg c h hok htakes
    have hreceived : ∀ t, takenBy t (es ++ [event GlobalLogger.step lg c]) =
        (logSpec hostname (es ++ [event GlobalLogger.step lg c])).linesFor t := by
      intro t
      obtain ⟨n, hn, hiff⟩ := received_step lg c t hok
      rw [takenBy_concat, logSpec_concat, h.received t]
      show _ ++ (lg.step c).2.flatMap _ = (LogSpec.next hostname _ c).linesFor t
      rw [linesFor_next h.refines, hn, List.take_of_length_le (hiff.mpr htakes)]
    refine ⟨⟨?_, hreceived⟩, hreceived⟩
    rw [logSpec_concat]
    exact refines_step h.refines c
  · intro es lg c h hok hshort hgood
    obtain ⟨n, hn, hiff⟩ := received_step lg c lg.target hok
    -- the target in force has received less than the line
    have hlt : n < (lineOf lg c).length := not_le.mp fun hle => hshort (hiff.mp hle)
    have heq := hgood lg.target
    rw [takenBy_concat, logSpec_concat, h.received lg.target] at heq
    have heq' : (logSpec hostname es).linesFor lg.target ++ (lg.step c).2.flatMap _ =
        (LogSpec.next hostname _ c).linesFor lg.target := heq
    rw [linesFor_next h.refines, hn, if_pos rfl, if_pos rfl] at heq'
    have hlen := congrArg List.length (List.append_cancel_left heq')
    rw [List.length_take] at hlen
    omega

/-- A notice for the standard output, and a debugging message that is above the level. -/
theorem wholeLines_stdout :
    Always GlobalLogger.step (.new [104, 0])
        (fun es _ => ∀ t, takenBy t es = (logSpec [104, 0] es).linesFor t)
        [.log ⟨.Notice, [], [], 7, [97]⟩ ⟨⟨9, 0⟩, 124, 0, 1, 0⟩ (some 35),
          .setTargetString 16, .log ⟨.Debug, [], [], 8, [98]⟩ ⟨⟨9, 0⟩, 124, 0, 1, 0⟩ none] ↔
      Along GlobalLogger.step (.new [104, 0]) (fun _ lg c => TakesLine lg c)
        [.log ⟨.Notice, [], [], 7, [97]⟩ ⟨⟨9, 0⟩, 124, 0, 1, 0⟩ (some 35),
          .setTargetString 16, .log ⟨.Debug, [], [], 8, [98]⟩ ⟨⟨9, 0⟩, 124, 0, 1, 0⟩ none] :=
  wholeLines_iff (by decide)

/-- A pipe takes four bytes of a line, and the rest never comes. -/
theorem wholeLines_short :
    LogWriteOk (.new [104, 0]) (.log ⟨.Notice, [], [], 7, [97]⟩ ⟨⟨9, 0⟩, 124, 0, 1, 0⟩ (some 4)) ∧
    ¬ Always GlobalLogger.step (.new [104, 0])
      (fun es _ => ∀ t, takenBy t es = (logSpec [104, 0] es).linesFor t)
      [.log ⟨.Notice, [], [], 7, [97]⟩ ⟨⟨9, 0⟩, 124, 0, 1, 0⟩ (some 4)] := by
  refine ⟨by decide, fun h => ?_⟩
  exact absurd (h _ (List.prefix_refl _) (.fd 1)) (by decide)

end Gdf
