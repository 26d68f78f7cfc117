/-
The log as a text, read back.

`readLog` takes what a target has received, splits it at the line feeds, and reads in
every line the level, the time and the text; it knows the format and the name of the
host.

* `readLine_line` — a line gives back what it was made of;
* `readLog_iff` — after every run, a target gives back the statements it was sent, all
  of them, once and in order, exactly if no text holds a line feed and the warning of
  `SetTarget(0)` did not get in between;
* `getCurrentTime_lt_iff` — times of four-digit years compare as texts as they do as
  times.
-/
import BsdGdf.GlobalLogger
import BsdGdf.Numerals
import BsdGdf.Pieces

namespace Gdf

open Runs Numerals Pieces

/-! ### Entries -/

/-- What a line of the log says. -/
structure LogEntry where
  level : eSeverityLevel
  time : LogTm
  text : Bytes
  deriving DecidableEq, Repr

/-- The message, and for a debugging statement where it stands. -/
def LogStream.text (s : LogStream) : Bytes :=
  s.mStream ++ if s.mLevel = .Debug then
    chars [' ', '-', '>', ' '] ++ cstr s.mFileName ++ chars [':'] ++ decimal s.mLineNumber
      ++ chars [':', ' '] ++ cstr s.mFunctionName
  else []

/-- The entry of a statement. -/
def LogEntry.of (s : LogStream) (localTime : LogTm) : LogEntry := ⟨s.mLevel, localTime, s.text⟩

/-- `[level]` and a space. -/
def levelTag (level : eSeverityLevel) : Bytes := chars ['['] ++ mLevelStr level ++ chars [']', ' ']

/-- A line without its line feed. -/
def LogEntry.body (hostname : Bytes) (e : LogEntry) : Bytes :=
  levelTag e.level ++ (GlobalLogger.getCurrentTime e.time ++ chars [' '] ++
    (cstr hostname ++ chars [' ', ':', ' '] ++ e.text))

theorem line_eq (hostname : Bytes) (s : LogStream) (localTime : LogTm) :
    GlobalLogger.line hostname s localTime = (LogEntry.of s localTime).body hostname ++ [10] := by
  rw [GlobalLogger.line, LogEntry.body, LogEntry.of, LogStream.text, levelTag]
  simp only [List.append_assoc]
  rfl

/-- What `localtime()` promises of its fields, in years with a sign of their own. -/
structure LogTm.Valid (t : LogTm) : Prop where
  year : 0 ≤ t.tm_year + 1900
  mon : 0 ≤ t.tm_mon ∧ t.tm_mon ≤ 11
  mday : 1 ≤ t.tm_mday ∧ t.tm_mday ≤ 31
  hour : 0 ≤ t.tm_hour ∧ t.tm_hour ≤ 23
  min : 0 ≤ t.tm_min ∧ t.tm_min ≤ 59
  sec : 0 ≤ t.tm_sec ∧ t.tm_sec ≤ 60

/-! ### Reading a line -/

/-- What follows a text. -/
def expect (tag l : Bytes) : Option Bytes := if tag <+: l then some (l.drop tag.length) else none

/-- A numeral and what follows it, up to `tag`. -/
def readField (tag l : Bytes) : Option (ℕ × Bytes) :=
  (expect tag (read l).2).map fun rest => ((read l).1, rest)

/-- The levels. -/
def levels : List eSeverityLevel :=
  [.Emergency, .Alert, .Critical, .Error, .Warning, .Notice, .Informational, .Debug]

/-- The level at the start of a line, and what follows. -/
def readLevel (l : Bytes) : Option (eSeverityLevel × Bytes) :=
  (levels.find? fun level => decide (levelTag level <+: l)).map fun level =>
    (level, l.drop (levelTag level).length)

/-- A line of a host's log. -/
def readLine (hostname l : Bytes) : Option LogEntry := do
  let (level, l) ← readLevel l
  let (year, l) ← readField (chars ['-']) l
  let (mon, l) ← readField (chars ['-']) l
  let (mday, l) ← readField (chars ['T']) l
  let (hour, l) ← readField (chars [':']) l
  let (min, l) ← readField (chars [':']) l
  let (sec, l) ← readField (chars [' ']) l
  let text ← expect (cstr hostname ++ chars [' ', ':', ' ']) l
  some ⟨level, ⟨⟨hour, min⟩, year - 1900, mon - 1, mday, sec⟩, text⟩

/-- It is a line feed. -/
abbrev isNewline (b : UInt8) : Bool := b = 10

/-- All lines of a log; what comes behind the last line feed is no line. -/
def readLog (hostname bytes : Bytes) : List (Option LogEntry) :=
  (bytes.splitOnP isNewline).dropLast.map (readLine hostname)

variable {hostname tag l rest : Bytes}

theorem expect_append (tag rest : Bytes) : expect tag (tag ++ rest) = some rest := by
  rw [expect, if_pos (List.prefix_append tag rest), List.drop_left]

theorem readField_append {ds : Bytes} (hds : ∀ b ∈ ds, isDigit b = true)
    (htag : ∀ b ∈ (tag ++ rest).head?, isDigit b = false) :
    readField tag (ds ++ (tag ++ rest)) = some (value ds, rest) := by
  rw [readField, read_append hds htag]
  show (expect tag (tag ++ rest)).map _ = _
  rw [expect_append]
  rfl

/-- A line starts with the tag of one level only. -/
theorem readLevel_append (level : eSeverityLevel) (rest : Bytes) :
    readLevel (levelTag level ++ rest) = some (level, rest) := by
  have hdistinct : ∀ a b : eSeverityLevel, levelTag a <+: levelTag b → a = b := by
    intro a b
    cases a <;> cases b <;> first | exact fun _ => rfl | exact fun h => absurd h (by decide)
  have hunique : ∀ a : eSeverityLevel, levelTag a <+: levelTag level ++ rest → a = level := by
    intro a ha
    rcases List.prefix_or_prefix_of_prefix ha (List.prefix_append (levelTag level) rest) with h | h
    · exact hdistinct a level h
    · exact (hdistinct level a h).symm
  have hmem : level ∈ levels := by cases level <;> decide
  have hfind : levels.find? (fun a => decide (levelTag a <+: levelTag level ++ rest)) =
      some level := by
    cases hf : levels.find? fun a => decide (levelTag a <+: levelTag level ++ rest) with
    | none =>
      have hno := List.find?_eq_none.mp hf level hmem
      exact absurd (decide_eq_true (List.prefix_append (levelTag level) rest)) hno
    | some a =>
      have ha := List.find?_some hf
      rw [hunique a (of_decide_eq_true ha)]
  rw [readLevel, hfind]
  show some (level, _) = _
  rw [List.drop_left]

/-! ### Reading a time -/

theorem decimal_eq {n : ℤ} (h : 0 ≤ n) : decimal n = numeral n.toNat := by
  have hpos : ¬ n < 0 := by omega
  have habs : n.natAbs = n.toNat := by omega
  rw [decimal, if_neg hpos, habs]
  rfl

theorem isDigit_decimal {n : ℤ} (h : 0 ≤ n) : ∀ b ∈ decimal n, isDigit b = true := by
  rw [decimal_eq h]
  exact isDigit_numeral _

theorem value_decimal {n : ℤ} (h : 0 ≤ n) : value (decimal n) = n.toNat := by
  rw [decimal_eq h, value_numeral]

theorem twoDigits_eq (n : ℤ) :
    DisplayBuffer.twoDigits n = List.replicate (2 - (decimal n).length) 48 ++ decimal n := by
  rw [DisplayBuffer.twoDigits, chars, List.map_replicate]
  rfl

theorem isDigit_twoDigits {n : ℤ} (h : 0 ≤ n) :
    ∀ b ∈ DisplayBuffer.twoDigits n, isDigit b = true := by
  intro b hb
  rw [twoDigits_eq] at hb
  rcases List.mem_append.mp hb with hb | hb
  · rw [List.eq_of_mem_replicate hb]
    rfl
  · exact isDigit_decimal h b hb

theorem value_twoDigits {n : ℤ} (h : 0 ≤ n) :
    value (DisplayBuffer.twoDigits n) = n.toNat := by
  rw [twoDigits_eq, value_zeros, value_decimal h]

/-- The fields of a time, each with what is behind it. -/
theorem getCurrentTime_eq (t : LogTm) (rest : Bytes) :
    GlobalLogger.getCurrentTime t ++ chars [' '] ++ rest =
      decimal (t.tm_year + 1900) ++ (chars ['-'] ++ (DisplayBuffer.twoDigits (t.tm_mon + 1) ++
        (chars ['-'] ++ (DisplayBuffer.twoDigits t.tm_mday ++ (chars ['T'] ++
        (DisplayBuffer.twoDigits t.tm_hour ++ (chars [':'] ++ (DisplayBuffer.twoDigits t.tm_min ++
        (chars [':'] ++ (DisplayBuffer.twoDigits t.tm_sec ++ (chars [' '] ++ rest))))))))))) := by
  simp only [GlobalLogger.getCurrentTime, List.append_assoc]

/-- A field is read up to the separator behind it. -/
theorem readField_decimal {n : ℤ} (h : 0 ≤ n) {c : Char}
    (hc : isDigit (UInt8.ofNat c.toNat) = false) (rest : Bytes) :
    readField (chars [c]) (decimal n ++ (chars [c] ++ rest)) = some (n.toNat, rest) := by
  rw [← value_decimal h]
  refine readField_append (isDigit_decimal h) fun b hb => ?_
  obtain rfl := Option.mem_some_iff.mp hb
  exact hc

theorem readField_twoDigits {n : ℤ} (h : 0 ≤ n) {c : Char}
    (hc : isDigit (UInt8.ofNat c.toNat) = false) (rest : Bytes) :
    readField (chars [c]) (DisplayBuffer.twoDigits n ++ (chars [c] ++ rest)) =
      some (n.toNat, rest) := by
  rw [← value_twoDigits h]
  refine readField_append (isDigit_twoDigits h) fun b hb => ?_
  obtain rfl := Option.mem_some_iff.mp hb
  exact hc

/-- **A line gives back what it was made of.** -/
theorem readLine_line (hostname : Bytes) {e : LogEntry} (h : e.time.Valid) :
    readLine hostname (e.body hostname) = some e := by
  have hmonth : 0 ≤ e.time.tm_mon + 1 := by
    have := h.mon.1
    omega
  have hday : 0 ≤ e.time.tm_mday := by
    have := h.mday.1
    omega
  have hdash : isDigit (UInt8.ofNat '-'.toNat) = false := rfl
  have hT : isDigit (UInt8.ofNat 'T'.toNat) = false := rfl
  have hcolon : isDigit (UInt8.ofNat ':'.toNat) = false := rfl
  have hspace : isDigit (UInt8.ofNat ' '.toNat) = false := rfl
  simp only [readLine, LogEntry.body, getCurrentTime_eq, readLevel_append, Option.bind_eq_bind,
    Option.bind_some, readField_decimal h.year hdash, readField_twoDigits hmonth hdash,
    readField_twoDigits hday hT, readField_twoDigits h.hour.1 hcolon,
    readField_twoDigits h.min.1 hcolon, readField_twoDigits h.sec.1 hspace, expect_append,
    Int.toNat_of_nonneg h.year, Int.toNat_of_nonneg hmonth, Int.toNat_of_nonneg hday,
    Int.toNat_of_nonneg h.hour.1, Int.toNat_of_nonneg h.min.1, Int.toNat_of_nonneg h.sec.1,
    Int.add_sub_cancel]

/-! ### Reading a log -/

/-- A level, a target, and the entries so far, each with its target. -/
structure LogBook where
  level : eSeverityLevel
  target : LogTarget
  entries : List (LogTarget × LogEntry)
  deriving DecidableEq, Repr

namespace LogBook

/-- Entries of up to `Informational` for the standard output, none yet. -/
def init : LogBook := ⟨.Informational, .fd 1, []⟩

/-- A statement makes an entry for the target in force, if its level is at most the one in
force. -/
def next (bk : LogBook) : LogCall → LogBook
  | .log s localTime _ =>
    if s.mLevel.number ≤ bk.level.number then
      { bk with entries := bk.entries ++ [(bk.target, .of s localTime)] }
    else bk
  | .setTargetString str => { bk with target := .string str }
  | .setTargetFd fd _ => { bk with target := .fd fd }
  | .setLevel level => { bk with level := level }

/-- The entries for a target. -/
def entriesFor (t : LogTarget) (bk : LogBook) : List LogEntry :=
  bk.entries.flatMap fun d => if d.1 = t then [d.2] else []

end LogBook

/-- The log book after some calls. -/
def logBook (calls : List LogCall) : LogBook := calls.foldl LogBook.next .init

/-- The time of a statement is one of a calendar. -/
def LogCall.TimeOk : LogCall → Prop
  | .log _ localTime _ => localTime.Valid
  | _ => True

instance (lg : GlobalLogger) : DecidablePred (TakesLine lg)
  | .log _ _ _ => inferInstanceAs (Decidable (_ → _ → _))
  | .setTargetString _ => isTrue trivial
  | .setTargetFd _ _ => isTrue trivial
  | .setLevel _ => isTrue trivial

/-- All bytes that a target receives in an action: those of log lines, and those of the
warning of `SetTarget(0)`, which goes to the standard output. -/
def LogAct.arrives (t : LogTarget) : LogAct → Bytes
  | .warn handed (some n) => if .fd 1 = t then handed.take n else []
  | act => act.received t

/-- All bytes that a target has received so far. -/
def arrivedAt (t : LogTarget) (es : List LogEvent) : Bytes :=
  es.flatMap fun e => e.output.flatMap (LogAct.arrives t)

/-- If the call warns, `write()` takes the whole warning or fails. -/
def LogCall.TakesWarning : LogCall → Prop
  | .setTargetFd fd (some n) => fd = 0 → n = GlobalLogger.stdinWarning.length
  | _ => True

/-- The call leaves its warning in a target. -/
def LogCall.warns (t : LogTarget) : LogCall → Bool
  | .setTargetFd fd (some _) => fd = 0 ∧ .fd 1 = t
  | _ => false

instance : DecidablePred LogCall.TakesWarning
  | .log _ _ _ => isTrue trivial
  | .setTargetString _ => isTrue trivial
  | .setTargetFd _ none => isTrue trivial
  | .setTargetFd _ (some _) => inferInstanceAs (Decidable (_ → _))
  | .setLevel _ => isTrue trivial

/-- What targets receive are the lines of the entries made for them. -/
structure Books (hostname : Bytes) (es : List LogEvent) (lg : GlobalLogger) (bk : LogBook) :
    Prop where
  host : lg.mHostname = hostname
  level : lg.mLevel = bk.level
  target : lg.target = bk.target
  received : ∀ t, takenBy t es =
    ((bk.entriesFor t).map (LogEntry.body hostname)).flatMap (· ++ [10])
  valid : ∀ t, ∀ e ∈ bk.entriesFor t, e.time.Valid

variable {lg : GlobalLogger} {bk : LogBook} {es : List LogEvent} {t : LogTarget}

/-- What a call adds for a target. -/
def LogBook.added (bk : LogBook) (t : LogTarget) : LogCall → List LogEntry
  | .log s localTime _ =>
    if s.mLevel.number ≤ bk.level.number ∧ bk.target = t then [.of s localTime] else []
  | _ => []

theorem entriesFor_next (bk : LogBook) (c : LogCall) (t : LogTarget) :
    (bk.next c).entriesFor t = bk.entriesFor t ++ bk.added t c := by
  cases c with
  | log s localTime wrote =>
    simp only [LogBook.next, LogBook.added]
    by_cases hlevel : s.mLevel.number ≤ bk.level.number
    · rw [if_pos hlevel]
      by_cases htarget : bk.target = t
      · rw [if_pos ⟨hlevel, htarget⟩]
        simp [LogBook.entriesFor, htarget]
      · rw [if_neg (fun h => htarget h.2)]
        simp [LogBook.entriesFor, htarget]
    · rw [if_neg hlevel, if_neg (fun h => hlevel h.1), List.append_nil]
  | _ => simp [LogBook.next, LogBook.entriesFor, LogBook.added]

/-- The line that a call delivers is that of the entry it makes. -/
theorem lineOf_added (h : Books hostname es lg bk) (c : LogCall) (t : LogTarget) :
    (if lg.target = t then lineOf lg c else []) =
      ((bk.added t c).map (LogEntry.body hostname)).flatMap (· ++ [10]) := by
  cases c with
  | log s localTime wrote =>
    simp only [lineOf, LogBook.added, h.level, h.target, h.host]
    by_cases htarget : bk.target = t
    · by_cases hlevel : s.mLevel.number ≤ bk.level.number
      · rw [if_pos htarget, if_pos hlevel, if_pos ⟨hlevel, htarget⟩, line_eq]
        simp
      · rw [if_pos htarget, if_neg hlevel, if_neg (fun h => hlevel h.1)]
        rfl
    · rw [if_neg htarget, if_neg (fun h => htarget h.2)]
      rfl
  | _ => simp [lineOf, LogBook.added]

/-- Every call with a whole line keeps the book. -/
theorem books_step (h : Books hostname es lg bk) {c : LogCall} (hok : LogWriteOk lg c)
    (htakes : TakesLine lg c) (htime : c.TimeOk) :
    Books hostname (es ++ [event GlobalLogger.step lg c]) (lg.step c).1 (bk.next c) := by
  have hkeep : (lg.step c).1.mHostname = hostname ∧ (lg.step c).1.mLevel = (bk.next c).level ∧
      (lg.step c).1.target = (bk.next c).target := by
    cases c with
    | log s localTime wrote =>
      show lg.mHostname = _ ∧ lg.mLevel = _ ∧ lg.target = _
      rw [LogBook.next]
      split <;> exact ⟨h.host, h.level, h.target⟩
    | setTargetString str => exact ⟨h.host, h.level, rfl⟩
    | setTargetFd fd wrote => exact ⟨h.host, h.level, rfl⟩
    | setLevel level => exact ⟨h.host, rfl, h.target⟩
  refine ⟨hkeep.1, hkeep.2.1, hkeep.2.2, fun t => ?_, fun t e he => ?_⟩
  · obtain ⟨n, hn, hiff⟩ := received_step lg c t hok
    rw [takenBy_concat, h.received t, entriesFor_next, List.map_append, List.flatMap_append,
      ← lineOf_added h c t]
    show _ ++ (lg.step c).2.flatMap _ = _
    rw [hn, List.take_of_length_le (hiff.mpr htakes)]
  · rw [entriesFor_next] at he
    rcases List.mem_append.mp he with he | he
    · exact h.valid t e he
    · cases c with
      | log s localTime wrote =>
        rw [LogBook.added] at he
        split at he
        · rw [List.mem_singleton.mp he]
          exact htime
        · exact absurd he List.not_mem_nil
      | _ => exact absurd he List.not_mem_nil

theorem books_run {calls : List LogCall}
    (hkernel : Along GlobalLogger.step (.new hostname) (fun _ lg c => LogWriteOk lg c) calls)
    (htakes : Along GlobalLogger.step (.new hostname) (fun _ lg c => TakesLine lg c) calls)
    (htimes : ∀ c ∈ calls, c.TimeOk) :
    Books hostname (trace GlobalLogger.step (.new hostname) calls)
      (final GlobalLogger.step (.new hostname) calls) (logBook calls) := by
  have hnone : ∀ t, LogBook.entriesFor t .init = [] := fun _ => rfl
  have hnew : Books hostname [] (.new hostname) .init :=
    ⟨rfl, rfl, rfl, fun _ => rfl, fun t e he => absurd he (by rw [hnone]; exact List.not_mem_nil)⟩
  have hinputs : ∀ (es : List LogEvent) (e : LogEvent),
      logBook ((es ++ [e]).map Event.input) = (logBook (es.map Event.input)).next e.input := by
    intro es e
    rw [List.map_append, logBook, List.foldl_append]
    rfl
  have hrun := (always_of_step (P := fun _ lg c => LogWriteOk lg c ∧ TakesLine lg c ∧ c.TimeOk)
    (Q := fun es lg => Books hostname es lg (logBook (es.map Event.input))) hnew
    (fun es lg c h hc => by
      rw [hinputs]
      exact books_step h hc.1 hc.2.1 hc.2.2)
    (hkernel.and (htakes.and (along_input_iff.mpr htimes)))).last
  have hcalls : (trace GlobalLogger.step (.new hostname) calls).map Event.input = calls := by
    have hio : (io (trace GlobalLogger.step (.new hostname) calls)).map Prod.fst = calls :=
      inputs_trace _ _
    rwa [io, List.map_map] at hio
  rwa [hcalls] at hrun

theorem countP_digits {ds : Bytes} (h : ∀ b ∈ ds, isDigit b = true) :
    ds.countP isNewline = 0 := by
  refine List.countP_eq_zero.mpr fun b hb hnewline => ?_
  have hb' := h b hb
  rw [of_decide_eq_true hnewline] at hb'
  exact absurd hb' (by decide)

theorem countP_getCurrentTime {time : LogTm} (h : time.Valid) :
    (GlobalLogger.getCurrentTime time).countP isNewline = 0 := by
  have hmonth : 0 ≤ time.tm_mon + 1 := by
    have := h.mon.1
    omega
  have hday : 0 ≤ time.tm_mday := by
    have := h.mday.1
    omega
  simp only [GlobalLogger.getCurrentTime, List.countP_append,
    countP_digits (isDigit_decimal h.year), countP_digits (isDigit_twoDigits hmonth),
    countP_digits (isDigit_twoDigits hday), countP_digits (isDigit_twoDigits h.hour.1),
    countP_digits (isDigit_twoDigits h.min.1), countP_digits (isDigit_twoDigits h.sec.1)]
  rfl

/-- The line feeds of a line are those of its text. -/
theorem countP_body (hhost : 10 ∉ cstr hostname) {e : LogEntry} (h : e.time.Valid) :
    (e.body hostname).countP isNewline = e.text.countP isNewline := by
  have htag : (levelTag e.level).countP isNewline = 0 := by cases e.level <;> rfl
  have hname : (cstr hostname).countP isNewline = 0 := by
    refine List.countP_eq_zero.mpr fun b hb hnewline => ?_
    rw [of_decide_eq_true hnewline] at hb
    exact hhost hb
  have hspace : (chars [' ']).countP isNewline = 0 := rfl
  have hcolon : (chars [' ', ':', ' ']).countP isNewline = 0 := rfl
  simp only [LogEntry.body, List.countP_append, htag, countP_getCurrentTime h, hname, hspace,
    hcolon, Nat.zero_add]

theorem countP_text_eq_zero_iff (e : LogEntry) : e.text.countP isNewline = 0 ↔ 10 ∉ e.text := by
  rw [List.countP_eq_zero]
  constructor
  · intro h hmem
    exact h 10 hmem rfl
  · intro h b hb hnewline
    rw [of_decide_eq_true hnewline] at hb
    exact h hb

/-- Lines whose texts hold no line feed give back what they were made of. -/
theorem readLog_lines (hhost : 10 ∉ cstr hostname) {entries : List LogEntry}
    (hvalid : ∀ e ∈ entries, e.time.Valid) (h : ∀ e ∈ entries, 10 ∉ e.text) :
    readLog hostname ((entries.map (LogEntry.body hostname)).flatMap (· ++ [10])) =
      entries.map some := by
  have hpieces : ∀ l ∈ entries.map (LogEntry.body hostname), ∀ b ∈ l, isNewline b = false := by
    intro l hl b hb
    obtain ⟨e, he, rfl⟩ := List.mem_map.mp hl
    have hzero := (countP_text_eq_zero_iff e).mpr (h e he)
    rw [← countP_body hhost (hvalid e he)] at hzero
    simpa using List.countP_eq_zero.mp hzero b hb
  rw [readLog, splitOnP_lines rfl hpieces, List.dropLast_concat, List.map_map]
  exact List.map_congr_left fun e he => readLine_line hostname (hvalid e he)

theorem length_readLog (hostname bytes : Bytes) :
    (readLog hostname bytes).length = bytes.countP isNewline := by
  rw [readLog, List.length_map, List.length_dropLast, length_splitOnP, Nat.add_sub_cancel]

/-- There is a line feed for every entry, and those in the texts. -/
theorem Books.countP_takenBy (h : Books hostname es lg bk) (hhost : 10 ∉ cstr hostname)
    (t : LogTarget) : (takenBy t es).countP isNewline = (bk.entriesFor t).length +
      ((bk.entriesFor t).map fun e => e.text.countP isNewline).sum := by
  have hcount : ∀ entries : List LogEntry, (∀ e ∈ entries, e.time.Valid) →
      ((entries.map (LogEntry.body hostname)).flatMap (· ++ [10])).countP isNewline =
        entries.length + (entries.map fun e => e.text.countP isNewline).sum := by
    intro entries
    induction entries with
    | nil => exact fun _ => rfl
    | cons e entries ih =>
      intro hvalid
      obtain ⟨he, hrest⟩ := List.forall_mem_cons.mp hvalid
      have hone : ([10] : Bytes).countP isNewline = 1 := rfl
      rw [List.map_cons, List.flatMap_cons, List.countP_append, List.countP_append,
        countP_body hhost he, ih hrest, hone, List.map_cons, List.sum_cons, List.length_cons]
      omega
  rw [h.received t, hcount _ (h.valid t)]

/-- The lines for a target give back the entries made for it exactly if no text holds a line
feed. -/
theorem Books.reads_back (h : Books hostname es lg bk) (hhost : 10 ∉ cstr hostname)
    (t : LogTarget) :
    readLog hostname (takenBy t es) = (bk.entriesFor t).map some ↔
      ∀ e ∈ bk.entriesFor t, 10 ∉ e.text := by
  constructor
  · intro hback
    -- every line feed in a text makes a line more than there are entries
    have hlen := congrArg List.length hback
    rw [length_readLog, List.length_map, h.countP_takenBy hhost t] at hlen
    have hsum : ((bk.entriesFor t).map fun e => e.text.countP isNewline).sum = 0 := by omega
    intro e he
    rw [← countP_text_eq_zero_iff]
    exact List.sum_eq_zero_iff_forall_eq_nat.mp hsum _ (List.mem_map_of_mem he)
  · rw [h.received t]
    exact readLog_lines hhost (h.valid t)

/-- What arrives in a call are its bytes of log lines, or the warning. -/
theorem arrives_step (lg : GlobalLogger) {c : LogCall} (h : c.TakesWarning) (t : LogTarget) :
    (lg.step c).2.flatMap (LogAct.arrives t) =
      if c.warns t then GlobalLogger.stdinWarning
      else (lg.step c).2.flatMap (LogAct.received t) := by
  cases c with
  | log s localTime wrote =>
    show (lg.endStatement s localTime wrote).flatMap _ =
      (lg.endStatement s localTime wrote).flatMap _
    rw [GlobalLogger.endStatement, GlobalLogger.log]
    split_ifs <;> rfl
  | setTargetFd fd wrote =>
    rw [received_setTargetFd]
    rcases wrote with _ | n
    · by_cases hfd : fd = 0 <;> simp [GlobalLogger.step, GlobalLogger.setTargetFd, hfd,
        LogAct.arrives, LogAct.received, LogCall.warns]
    by_cases hfd : fd = 0
    · have hwhole : GlobalLogger.stdinWarning.take n = GlobalLogger.stdinWarning :=
        List.take_of_length_le (h hfd).ge
      simp [GlobalLogger.step, GlobalLogger.setTargetFd, hfd, LogAct.arrives, LogCall.warns,
        hwhole]
    · simp [GlobalLogger.step, GlobalLogger.setTargetFd, hfd, LogCall.warns]
  | _ => rfl

/-- Every warning adds a line feed, and without one there are lines only. -/
theorem arrivedAt_run {calls : List LogCall} (lg : GlobalLogger)
    (h : ∀ c ∈ calls, c.TakesWarning) (t : LogTarget) :
    let es := trace GlobalLogger.step lg calls
    (arrivedAt t es).countP isNewline =
        (takenBy t es).countP isNewline + calls.countP (LogCall.warns t) ∧
      ((∀ c ∈ calls, c.warns t = false) → arrivedAt t es = takenBy t es) := by
  induction calls generalizing lg with
  | nil => exact ⟨rfl, fun _ => rfl⟩
  | cons c calls ih =>
    obtain ⟨hc, hrest⟩ := List.forall_mem_cons.mp h
    obtain ⟨hcount, hsame⟩ := ih (lg.step c).1 hrest
    intro es
    have harrived : arrivedAt t es = (lg.step c).2.flatMap (LogAct.arrives t) ++
        arrivedAt t (trace GlobalLogger.step (lg.step c).1 calls) := List.flatMap_cons
    have htaken : takenBy t es = (lg.step c).2.flatMap (LogAct.received t) ++
        takenBy t (trace GlobalLogger.step (lg.step c).1 calls) := List.flatMap_cons
    rw [arrives_step lg hc] at harrived
    constructor
    · rw [harrived, htaken, List.countP_append, List.countP_append, hcount, List.countP_cons]
      cases hwarns : c.warns t with
      | false =>
        simp only [Bool.false_eq_true, if_false]
        omega
      | true =>
        -- no line is delivered in such a call
        have hnone : (lg.step c).2.flatMap (LogAct.received t) = [] := by
          rcases c with _ | _ | ⟨fd, _ | n⟩ | _
          · exact absurd hwarns Bool.false_ne_true
          · exact absurd hwarns Bool.false_ne_true
          · exact absurd hwarns Bool.false_ne_true
          · exact received_setTargetFd lg fd (some n) t
          · exact absurd hwarns Bool.false_ne_true
        have hwarning : GlobalLogger.stdinWarning.countP isNewline = 1 := by decide
        rw [hnone, if_pos rfl, if_pos rfl, hwarning]
        show 1 + _ = 0 + _ + _
        omega
    · intro hnone
      obtain ⟨hc', hrest'⟩ := List.forall_mem_cons.mp hnone
      rw [harrived, htaken, hsame hrest', hc']
      rfl

/-- **When the log can be read back.**  After every run of statements and changes of the
level and of the target in which `write()` takes whole lines, and the warnings whole or not
at all, for a host whose name holds no line feed: all that a target has received gives back
the entries made for it, level, time and text, all of them and in order, if and only if
none of the texts holds a line feed, and no warning has arrived at the target. -/
theorem readLog_iff {calls : List LogCall} (t : LogTarget)
    (hkernel : Along GlobalLogger.step (.new hostname) (fun _ lg c => LogWriteOk lg c) calls)
    (htakes : Along GlobalLogger.step (.new hostname) (fun _ lg c => TakesLine lg c) calls)
    (hwarning : ∀ c ∈ calls, c.TakesWarning) (hhost : 10 ∉ cstr hostname)
    (htimes : ∀ c ∈ calls, c.TimeOk) :
    readLog hostname (arrivedAt t (trace GlobalLogger.step (.new hostname) calls)) =
        ((logBook calls).entriesFor t).map some ↔
      (∀ e ∈ (logBook calls).entriesFor t, 10 ∉ e.text) ∧ ∀ c ∈ calls, c.warns t = false := by
  have hbooks := books_run hkernel htakes htimes
  obtain ⟨hcount, hsame⟩ := arrivedAt_run (.new hostname) hwarning t
  constructor
  · intro hback
    -- the line feed of a warning makes a line that no entry accounts for
    have hlen := congrArg List.length hback
    rw [length_readLog, List.length_map, hcount, hbooks.countP_takenBy hhost t] at hlen
    have hzero : calls.countP (LogCall.warns t) = 0 := by omega
    have hnone : ∀ c ∈ calls, c.warns t = false := fun c hc =>
      Bool.eq_false_iff.mpr (List.countP_eq_zero.mp hzero c hc)
    rw [hsame hnone] at hback
    exact ⟨(hbooks.reads_back hhost t).mp hback, hnone⟩
  · rintro ⟨htext, hnone⟩
    rw [hsame hnone]
    exact (hbooks.reads_back hhost t).mpr htext

/-- A message with a line feed for the standard output, and a warning there; then a notice
and a debugging message for a string. -/
theorem readLog_two :
    let calls : List LogCall := [
      .log ⟨.Warning, [], [], 7, [97, 10]⟩ ⟨⟨9, 0⟩, 124, 0, 1, 0⟩ (some 37),
      .setTargetFd 0 (some 61), .setTargetFd 0 none, .setLevel .Debug, .setTargetString 16,
      .log ⟨.Notice, [], [], 8, [98]⟩ ⟨⟨9, 5⟩, 124, 11, 31, 60⟩ none,
      .log ⟨.Debug, [102], [103], 9, []⟩ ⟨⟨9, 6⟩, 124, 11, 31, 0⟩ none]
    readLog [104, 0] (arrivedAt (.string 16) (trace GlobalLogger.step (.new [104, 0]) calls)) =
        ((logBook calls).entriesFor (.string 16)).map some ↔
      (∀ e ∈ (logBook calls).entriesFor (.string 16), 10 ∉ e.text) ∧
        ∀ c ∈ calls, c.warns (.string 16) = false := by
  refine readLog_iff (.string 16) (by decide) (by decide) (by decide) (by decide) ?_
  simp only [List.forall_mem_cons]
  exact ⟨by constructor <;> decide, trivial, trivial, trivial, trivial,
    by constructor <;> decide, by constructor <;> decide, fun c hc => absurd hc List.not_mem_nil⟩

/-! ### The order of times -/

/-- The fields of a time, the greatest first. -/
def LogTm.fields (t : LogTm) : List ℤ :=
  [t.tm_year, t.tm_mon, t.tm_mday, t.tm_hour, t.tm_min, t.tm_sec]

theorem length_twoDigits_eq {n : ℤ} (h0 : 0 ≤ n) (h : n < 100) :
    (DisplayBuffer.twoDigits n).length = 2 := by
  have hle : (decimal n).length ≤ 2 := by
    rw [decimal_eq h0]
    exact (length_numeral_le_iff (by decide)).mpr (show n.toNat < 100 by omega)
  rw [twoDigits_eq, List.length_append, List.length_replicate]
  omega

theorem length_decimal_eq {n : ℤ} (h0 : 1000 ≤ n) (h : n < 10000) : (decimal n).length = 4 := by
  have hle : (decimal n).length ≤ 4 := by
    rw [decimal_eq (by omega)]
    exact (length_numeral_le_iff (by decide)).mpr (show n.toNat < 10000 by omega)
  have hgt : ¬ (decimal n).length ≤ 3 := by
    rw [decimal_eq (by omega), length_numeral_le_iff (by decide)]
    show ¬ n.toNat < 1000
    omega
  omega

/-- The fields that are written with two digits have no more. -/
theorem LogTm.Valid.twoDigits {t : LogTm} (h : t.Valid) :
    (0 ≤ t.tm_mon + 1 ∧ t.tm_mon + 1 < 100) ∧ (0 ≤ t.tm_mday ∧ t.tm_mday < 100) ∧
      (0 ≤ t.tm_hour ∧ t.tm_hour < 100) ∧ (0 ≤ t.tm_min ∧ t.tm_min < 100) ∧
      (0 ≤ t.tm_sec ∧ t.tm_sec < 100) := by
  obtain ⟨-, hmon, hmday, hhour, hmin, hsec⟩ := h
  omega

/-- Two fields, with the same separator and something behind it. -/
theorem twoDigits_lt_iff {m n : ℤ} (hm : 0 ≤ m ∧ m < 100) (hn : 0 ≤ n ∧ n < 100) (b : UInt8)
    (l l' : Bytes) :
    DisplayBuffer.twoDigits m ++ b :: l < DisplayBuffer.twoDigits n ++ b :: l' ↔
      m < n ∨ m = n ∧ l < l' := by
  have hlen := (length_twoDigits_eq hm.1 hm.2).trans (length_twoDigits_eq hn.1 hn.2).symm
  have hlt : m.toNat < n.toNat ↔ m < n := by omega
  have heq : m.toNat = n.toNat ↔ m = n := by omega
  rw [append_lt_append_iff hlen (isDigit_twoDigits hm.1) (isDigit_twoDigits hn.1),
    value_twoDigits hm.1, value_twoDigits hn.1, hlt, heq, List.cons_lt_cons_iff]
  simp only [UInt8.lt_irrefl, false_or, true_and]

/-- **Times compare as texts.**  In years of four digits the earlier of two times is the
lesser text. -/
theorem getCurrentTime_lt_iff {s t : LogTm} (hs : s.Valid) (ht : t.Valid)
    (hs4 : 1000 ≤ s.tm_year + 1900 ∧ s.tm_year + 1900 < 10000)
    (ht4 : 1000 ≤ t.tm_year + 1900 ∧ t.tm_year + 1900 < 10000) :
    GlobalLogger.getCurrentTime s < GlobalLogger.getCurrentTime t ↔ s.fields < t.fields := by
  have hlen := (length_decimal_eq hs4.1 hs4.2).trans (length_decimal_eq ht4.1 ht4.2).symm
  have hyear : (s.tm_year + 1900).toNat < (t.tm_year + 1900).toNat ↔ s.tm_year < t.tm_year := by
    omega
  have hyear' : (s.tm_year + 1900).toNat = (t.tm_year + 1900).toNat ↔ s.tm_year = t.tm_year := by
    omega
  obtain ⟨hmon, hmday, hhour, hmin, hsec⟩ := hs.twoDigits
  obtain ⟨hmon', hmday', hhour', hmin', hsec'⟩ := ht.twoDigits
  have hlast := append_lt_append_iff ((length_twoDigits_eq hsec.1 hsec.2).trans
    (length_twoDigits_eq hsec'.1 hsec'.2).symm) (isDigit_twoDigits hsec.1)
    (isDigit_twoDigits hsec'.1) [] []
  have hseconds : s.tm_sec.toNat < t.tm_sec.toNat ↔ s.tm_sec < t.tm_sec := by omega
  rw [List.append_nil, List.append_nil, value_twoDigits hsec.1, value_twoDigits hsec'.1,
    hseconds] at hlast
  have hfields : ∀ r : LogTm, GlobalLogger.getCurrentTime r =
      decimal (r.tm_year + 1900) ++ 45 :: (DisplayBuffer.twoDigits (r.tm_mon + 1) ++
        45 :: (DisplayBuffer.twoDigits r.tm_mday ++ 84 :: (DisplayBuffer.twoDigits r.tm_hour ++
        58 :: (DisplayBuffer.twoDigits r.tm_min ++ 58 :: DisplayBuffer.twoDigits r.tm_sec)))) := by
    intro r
    simp only [GlobalLogger.getCurrentTime, List.append_assoc]
    rfl
  rw [hfields, hfields, append_lt_append_iff hlen (isDigit_decimal hs.year)
      (isDigit_decimal ht.year),
    value_decimal hs.year, value_decimal ht.year, hyear, hyear', List.cons_lt_cons_iff,
    twoDigits_lt_iff hmon hmon', twoDigits_lt_iff hmday hmday', twoDigits_lt_iff hhour hhour',
    twoDigits_lt_iff hmin hmin', hlast]
  simp only [LogTm.fields, List.cons_lt_cons_iff, UInt8.lt_irrefl, false_or, true_and,
    add_lt_add_iff_right, add_left_inj, List.not_lt_nil, and_false, or_false]

/-- The last second of a year, and the first of the next. -/
theorem getCurrentTime_lt_newYear :
    GlobalLogger.getCurrentTime ⟨⟨23, 59⟩, 123, 11, 31, 59⟩ <
        GlobalLogger.getCurrentTime ⟨⟨0, 0⟩, 124, 0, 1, 0⟩ ↔
      LogTm.fields ⟨⟨23, 59⟩, 123, 11, 31, 59⟩ < LogTm.fields ⟨⟨0, 0⟩, 124, 0, 1, 0⟩ :=
  getCurrentTime_lt_iff (by constructor <;> decide) (by constructor <;> decide) (by decide)
    (by decide)

end Gdf
