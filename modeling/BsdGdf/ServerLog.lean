/-
The log of a server, read back.

A server is a `Network` object whose statements go to the logger, which appends them to a
string.  `statements` are those of its calls, in order.

* `newline_mem_text_iff` — the statements that show what a client sent or is sent are the
  ones of several lines;
* `serverLog_iff` — over every run, the string gives back the statements that were logged
  exactly if none of these is logged;
* `log_forged` — at the level `Notice` and above, a client can add any entry of one line to
  what reading the log gives back, as long as the line fits in what `recv()` is asked for.
-/
import BsdGdf.NetworkLog
import BsdGdf.LogLines

namespace Gdf

open Runs Numerals

/-- A call of the object, with the value of `errno` for its statements, and a time for each
of them. -/
structure Served where
  act : Act
  errno : ℤ
  localTime : ℕ → LogTm

/-- `__PRETTY_FUNCTION__`, `__FILE__` and `__LINE__` of a statement. -/
structure Place where
  mFunctionName : Bytes
  mFileName : Bytes
  mLineNumber : ℤ
  deriving DecidableEq, Repr

namespace Statement

/-- The stream of a statement when it ends. -/
def stream (names : Names) (place : Statement → Place) (st : Statement) : LogStream where
  mLevel := st.level
  mFunctionName := (place st).mFunctionName
  mFileName := (place st).mFileName
  mLineNumber := (place st).mLineNumber
  mStream := st.text names

/-- The address in a statement. -/
def ip : Statement → Option Bytes
  | .failed _ _ => none
  | .disconnected ip => some ip
  | .recvFailed ip _ => some ip
  | .received ip _ => some ip
  | .sendFailed ip _ => some ip
  | .sent ip _ _ => some ip
  | .sentDebug ip _ => some ip

/-- It shows what a client sent or is sent. -/
def transfers : Statement → Bool
  | .received _ _ => true
  | .sent _ _ _ => true
  | _ => false

end Statement

/-- The statements that a server carries out, with their times. -/
def statements (names : Names) : Network → List Served → List (Statement × LogTm)
  | _, [] => []
  | net, i :: is =>
    (net.logs names i.act i.errno).zipIdx.map (fun p => (p.1, i.localTime p.2)) ++
      statements names (live net i.act).1 is

/-- What the logger is called with. -/
def logCalls (names : Names) (place : Statement → Place) (sts : List (Statement × LogTm)) :
    List LogCall :=
  sts.map fun p => .log (p.1.stream names place) p.2 none

/-- The entry of a statement. -/
def entryOf (names : Names) (place : Statement → Place) (p : Statement × LogTm) : LogEntry :=
  .of (p.1.stream names place) p.2

/-- The statements of a level that is logged. -/
def logged (level : eSeverityLevel) (sts : List (Statement × LogTm)) : List (Statement × LogTm) :=
  sts.filter fun p => decide (p.1.level.number ≤ level.number)

/-- The calls of the logger in a run of the server: first the target and the level are
set. -/
def serverCalls (names : Names) (place : Statement → Place) (str : UInt64)
    (level : eSeverityLevel) (is : List Served) : List LogCall :=
  .setTargetString str :: .setLevel level :: logCalls names place (statements names .new is)

/-- No text that comes from the C library, and no place, holds a line feed. -/
structure OneLine (names : Names) (place : Statement → Place) : Prop where
  inet_ntoa : ∀ addr, 10 ∉ names.inet_ntoa addr
  strerror : ∀ errno, 10 ∉ names.strerror errno
  mFunctionName : ∀ st, 10 ∉ cstr (place st).mFunctionName
  mFileName : ∀ st, 10 ∉ cstr (place st).mFileName

/-- Nor does the name that `Init` gets for the host, and the times are those of a calendar. -/
def Served.Ok (i : Served) : Prop :=
  (∀ n, (i.localTime n).Valid) ∧
    ∀ ret setup, i.act = .init ret setup → ∀ ip ∈ setup.hostEntry, (10 : UInt8) ∉ ip

variable {names : Names} {place : Statement → Place} {net : Network} {st : Statement} {k : int32}

/-! ### Texts of one line -/

theorem newline_notMem_decimal (n : ℤ) : 10 ∉ decimal n := by
  have hdigits : ∀ {m : ℤ}, 0 ≤ m → 10 ∉ decimal m := fun hm hmem =>
    absurd (isDigit_decimal hm 10 hmem) (by decide)
  by_cases hn : n < 0
  · have hneg : decimal n = 45 :: decimal n.natAbs := by
      have hpos : ¬ (n.natAbs : ℤ) < 0 := by omega
      rw [decimal, if_pos hn, decimal, if_neg hpos]
      rfl
    rw [hneg]
    intro hmem
    rcases List.mem_cons.mp hmem with h | h
    · exact absurd h (by decide)
    · exact hdigits (by omega) h
  · exact hdigits (by omega)

theorem newline_notMem_failure (what : Failure) : 10 ∉ what.before ∧ 10 ∉ what.after := by
  cases what <;> decide

theorem newline_notMem_address {before ip after : Bytes} (hbefore : 10 ∉ before) (hip : 10 ∉ ip)
    (hafter : 10 ∉ after) : 10 ∉ before ++ ip ++ after :=
  List.not_mem_append (List.not_mem_append hbefore hip) hafter

theorem newline_notMem_error (h : OneLine names place) {before after : Bytes}
    (hbefore : 10 ∉ before) (hafter : 10 ∉ after) (errno : ℤ) :
    10 ∉ before ++ decimal errno ++ chars " - ".toList ++ names.strerror errno ++ after := by
  have hnumber : 10 ∉ before ++ decimal errno ++ chars " - ".toList :=
    List.not_mem_append (List.not_mem_append hbefore (newline_notMem_decimal errno)) (by decide)
  exact List.not_mem_append (List.not_mem_append hnumber (h.strerror errno)) hafter

/-- The messages of several lines are those that show what is transferred. -/
theorem newline_mem_message_iff (h : OneLine names place) (hip : ∀ ip ∈ st.ip, 10 ∉ ip) :
    10 ∈ st.text names ↔ st.transfers = true := by
  cases st with
  | failed what errno =>
    obtain ⟨hbefore, hafter⟩ := newline_notMem_failure what
    exact iff_of_false (newline_notMem_error h hbefore hafter errno) Bool.false_ne_true
  | disconnected ip =>
    exact iff_of_false (newline_notMem_address (by decide) (hip ip rfl) (by decide))
      Bool.false_ne_true
  | recvFailed ip errno =>
    refine iff_of_false (newline_notMem_error h ?_ (by decide) errno) Bool.false_ne_true
    exact newline_notMem_address (by decide) (hip ip rfl) (by decide)
  | sendFailed ip errno =>
    refine iff_of_false (newline_notMem_error h ?_ (by decide) errno) Bool.false_ne_true
    exact newline_notMem_address (by decide) (hip ip rfl) (by decide)
  | received ip text =>
    exact iff_of_true (List.mem_append_left _ (List.mem_append_right _ (by decide))) rfl
  | sent ip sendLen text =>
    exact iff_of_true (List.mem_append_left _ (List.mem_append_right _ (by decide))) rfl
  | sentDebug ip sendLen =>
    refine iff_of_false (newline_notMem_address ?_ (newline_notMem_decimal sendLen) (by decide))
      Bool.false_ne_true
    exact newline_notMem_address (by decide) (hip ip rfl) (by decide)

/-- The statements of several lines are those that show what is transferred. -/
theorem newline_mem_text_iff (h : OneLine names place) (hip : ∀ ip ∈ st.ip, 10 ∉ ip) :
    10 ∈ (st.stream names place).text ↔ st.transfers = true := by
  have hfile : 10 ∉ chars [' ', '-', '>', ' '] ++ cstr (place st).mFileName ++ chars [':'] :=
    newline_notMem_address (by decide) (h.mFileName st) (by decide)
  have hplace : 10 ∉ chars [' ', '-', '>', ' '] ++ cstr (place st).mFileName ++ chars [':']
      ++ decimal (place st).mLineNumber ++ chars [':', ' '] ++ cstr (place st).mFunctionName :=
    List.not_mem_append (newline_notMem_address hfile (newline_notMem_decimal _) (by decide))
      (h.mFunctionName st)
  rw [← newline_mem_message_iff h hip]
  show 10 ∈ st.text names ++ (if st.level = .Debug then _ else []) ↔ _
  rw [List.mem_append]
  constructor
  · rintro (hmem | hmem)
    · exact hmem
    · split_ifs at hmem
      · exact absurd hmem hplace
      · exact absurd hmem List.not_mem_nil
  · exact .inl

/-! ### The addresses -/

theorem newline_notMem_getIPString (h : OneLine names place) (hserver : 10 ∉ net.mServerIPString) :
    10 ∉ net.getIPString names k := by
  rw [Network.getIPString]
  split_ifs
  · exact hserver
  · cases net.mSessions k with
    | none =>
      show 10 ∉ chars "Unknown client(doesn't have session))".toList
      decide
    | some s => exact h.inet_ntoa _

/-- If a statement shows an address, then one of one line. -/
def ShowsLine (st : Statement) : Prop := ∀ ip ∈ st.ip, 10 ∉ ip

theorem showsLine_initLogs (ret : int32) (setup : SetupRet) (errno : ℤ) :
    ∀ st ∈ Network.initLogs ret setup errno, ShowsLine st := by
  rw [Network.initLogs, Network.setServerSocketLogs]
  split_ifs <;> cases setup.hostEntry <;> simp [ShowsLine, Statement.ip]

/-- The statements of a call show addresses of one line. -/
theorem showsLine_logs (h : OneLine names place) (hserver : 10 ∉ net.mServerIPString) (a : Act)
    (errno : ℤ) : ∀ st ∈ net.logs names a errno, ShowsLine st := by
  have hip : ∀ (net' : Network) {l : int32} {st : Statement},
      net'.mServerIPString = net.mServerIPString → st.ip = some (net'.getIPString names l) →
      ShowsLine st := by
    intro net' l st hsame hst ip hmem
    rw [hst] at hmem
    rw [← Option.some_inj.mp hmem]
    exact newline_notMem_getIPString h (by rw [hsame]; exact hserver)
  cases a with
  | init ret setup => exact showsLine_initLogs ret setup errno
  | call c =>
    cases c with
    | connectNewClient accept fcntl =>
      show ∀ st ∈ Network.connectNewClientLogs accept fcntl errno, ShowsLine st
      rw [Network.connectNewClientLogs]
      split_ifs <;> simp [ShowsLine, Statement.ip]
    | disconnectClient k => exact List.forall_mem_singleton.mpr (hip net rfl rfl)
    | recvFromClient k recv =>
      show ∀ st ∈ net.recvFromClientLogs names k recv errno, ShowsLine st
      rw [Network.recvFromClientLogs.eq_def]
      rcases recv with err | bytes
      · simp only
        split_ifs
        · exact fun st hst => absurd hst List.not_mem_nil
        · exact List.forall_mem_singleton.mpr (hip (net.setSession k (net.session k)) rfl rfl)
      · simp only
        split_ifs
        · exact fun st hst => absurd hst List.not_mem_nil
        · exact List.forall_mem_singleton.mpr (hip (net.setSession k (net.session k)) rfl rfl)
        · exact List.forall_mem_singleton.mpr (hip (net.setSession k (net.session k)) rfl rfl)
    | sendToClient k send =>
      show ∀ st ∈ net.sendToClientLogs names k send errno, ShowsLine st
      simp only [Network.sendToClientLogs]
      split_ifs
      · exact List.forall_mem_singleton.mpr (hip (net.setSession k (net.session k)) rfl rfl)
      · exact fun st hst => absurd hst List.not_mem_nil
      · exact List.forall_mem_singleton.mpr (hip (net.setSession k (net.session k)) rfl rfl)
      · exact List.forall_mem_cons.mpr ⟨hip (net.setSession k (net.session k)) rfl rfl,
          List.forall_mem_singleton.mpr (hip (net.setSession k (net.session k)) rfl rfl)⟩
    | _ => exact fun st hst => absurd hst List.not_mem_nil

/-- The server's own address is that of its last `Init` that came so far. -/
theorem newline_notMem_server {i : Served} (hi : i.Ok) (hserver : 10 ∉ net.mServerIPString) :
    10 ∉ (live net i.act).1.mServerIPString := by
  obtain ⟨a, errno, localTime⟩ := i
  cases a with
  | call c =>
    have hsame : (step net c).1.mServerIPString = net.mServerIPString := by
      rcases step_touches net c with heq | ⟨-, ⟨s, heq⟩ | heq⟩ <;> rw [heq] <;> rfl
    show 10 ∉ (step net c).1.mServerIPString
    rw [hsame]
    exact hserver
  | init ret setup =>
    have hset : ∀ net' : Network, 10 ∉ net'.mServerIPString →
        10 ∉ (net'.setServerSocket setup).1.mServerIPString := by
      intro net' hserver'
      rw [Network.setServerSocket]
      cases hentry : setup.hostEntry with
      | none => split_ifs <;> exact hserver'
      | some ip =>
        have hip : 10 ∉ ip := hi.2 ret setup rfl ip hentry
        split_ifs <;> first | exact hserver' | exact hip
    show 10 ∉ (net.init ret setup).1.mServerIPString
    by_cases hret : ret = ERROR
    · simpa [Network.init, Network.createServerSocket, hret] using hserver
    · cases hok : ({ net with mServerSocket := ret }.setServerSocket setup).2.1 <;>
        simpa [Network.init, Network.createServerSocket, hret, hok] using
          hset { net with mServerSocket := ret } hserver

theorem newline_notMem_server_run : ∀ {net : Network} {is : List Served},
    10 ∉ net.mServerIPString → (∀ i ∈ is, i.Ok) →
    10 ∉ (final live net (is.map Served.act)).mServerIPString := by
  intro net is
  induction is generalizing net with
  | nil => exact fun hserver _ => hserver
  | cons i is ih =>
    intro hserver hok
    obtain ⟨hi, hrest⟩ := List.forall_mem_cons.mp hok
    exact ih (newline_notMem_server hi hserver) hrest

/-- All statements of a run show addresses of one line. -/
theorem showsLine_statements (h : OneLine names place) : ∀ {net : Network} {is : List Served},
    10 ∉ net.mServerIPString → (∀ i ∈ is, i.Ok) →
    ∀ p ∈ statements names net is, ShowsLine p.1 := by
  intro net is
  induction is generalizing net with
  | nil => exact fun _ _ p hp => absurd hp List.not_mem_nil
  | cons i is ih =>
    intro hserver hok p hp
    obtain ⟨hi, hrest⟩ := List.forall_mem_cons.mp hok
    rcases List.mem_append.mp hp with hp | hp
    · obtain ⟨⟨st, n⟩, hst, rfl⟩ := List.mem_map.mp hp
      exact showsLine_logs h hserver i.act i.errno st (List.fst_mem_of_mem_zipIdx hst)
    · exact ih (newline_notMem_server hi hserver) hrest p hp

/-! ### What the string holds -/

/-- The entries that the statements make. -/
theorem logBook_logCalls (level : eSeverityLevel) (t : LogTarget) :
    ∀ (sts : List (Statement × LogTm)) (entries : List (LogTarget × LogEntry)),
      (logCalls names place sts).foldl LogBook.next ⟨level, t, entries⟩ =
        ⟨level, t, entries ++ (logged level sts).map fun p => (t, entryOf names place p)⟩ := by
  intro sts
  induction sts with
  | nil =>
    intro entries
    simp [logCalls, logged]
  | cons p sts ih =>
    intro entries
    show (logCalls names place sts).foldl LogBook.next
      (LogBook.next ⟨level, t, entries⟩ (.log (p.1.stream names place) p.2 none)) = _
    rw [LogBook.next, logged, List.filter_cons]
    by_cases hlevel : p.1.level.number ≤ level.number
    · have hstream : (p.1.stream names place).mLevel.number ≤ level.number := hlevel
      rw [if_pos hstream, ih, if_pos (decide_eq_true hlevel)]
      simp [logged, entryOf]
    · have hstream : ¬ (p.1.stream names place).mLevel.number ≤ level.number := hlevel
      rw [if_neg hstream, ih, if_neg (by simpa using hlevel)]
      rfl

/-- A string takes every line whole. -/
theorem along_logCalls {lg : GlobalLogger} (hstr : lg.bIsStringTarget = true)
    (sts : List (Statement × LogTm)) :
    Along GlobalLogger.step lg (fun _ lg c => LogWriteOk lg c ∧ TakesLine lg c)
      (logCalls names place sts) := by
  induction sts with
  | nil => exact along_nil
  | cons p sts ih =>
    refine (along_cons _ _).mpr ⟨⟨fun act hact => ?_, fun _ hno => ?_⟩, ih⟩
    · have hmem : act ∈ lg.endStatement (p.1.stream names place) p.2 none := hact
      rw [GlobalLogger.endStatement, GlobalLogger.log, if_pos hstr] at hmem
      split_ifs at hmem
      · rw [List.mem_singleton.mp hmem]
        exact trivial
      · exact absurd hmem List.not_mem_nil
    · exact absurd (hstr.symm.trans hno) (by simp)

theorem mem_statements {net : Network} {is : List Served} {p : Statement × LogTm}
    (hp : p ∈ statements names net is) : ∃ i ∈ is, ∃ n, p.2 = i.localTime n := by
  induction is generalizing net with
  | nil => exact absurd hp List.not_mem_nil
  | cons i is ih =>
    rcases List.mem_append.mp hp with hp | hp
    · obtain ⟨⟨st, n⟩, -, rfl⟩ := List.mem_map.mp hp
      exact ⟨i, List.mem_cons_self, n, rfl⟩
    · obtain ⟨j, hj, htime⟩ := ih hp
      exact ⟨j, List.mem_cons_of_mem _ hj, htime⟩

/-- The string holds the entries of the statements that are logged. -/
theorem books_server (names : Names) (place : Statement → Place) (str : UInt64)
    (level : eSeverityLevel) (hostname : Bytes)
    {is : List Served} (htimes : ∀ i ∈ is, ∀ n, (i.localTime n).Valid) :
    Books hostname
        (trace GlobalLogger.step (.new hostname) (serverCalls names place str level is))
        (final GlobalLogger.step (.new hostname) (serverCalls names place str level is))
        (logBook (serverCalls names place str level is)) ∧
      (logBook (serverCalls names place str level is)).entriesFor (.string str) =
        (logged level (statements names .new is)).map (entryOf names place) := by
  have hcalls : Along GlobalLogger.step (.new hostname)
      (fun _ lg c => LogWriteOk lg c ∧ TakesLine lg c) (serverCalls names place str level is) := by
    have hnil : ∀ lg : GlobalLogger, ∀ c, (lg.step c).2 = [] → LogWriteOk lg c := by
      intro lg c hc act hact
      rw [hc] at hact
      exact absurd hact List.not_mem_nil
    refine (along_cons _ _).mpr ⟨⟨hnil _ _ rfl, trivial⟩, (along_cons _ _).mpr
      ⟨⟨hnil _ _ rfl, trivial⟩, ?_⟩⟩
    exact along_logCalls rfl _
  have hvalid : ∀ c ∈ serverCalls names place str level is, c.TimeOk := by
    refine List.forall_mem_cons.mpr ⟨trivial, List.forall_mem_cons.mpr ⟨trivial, fun c hc => ?_⟩⟩
    obtain ⟨p, hp, rfl⟩ := List.mem_map.mp hc
    obtain ⟨i, hi, n, htime⟩ := mem_statements hp
    show p.2.Valid
    rw [htime]
    exact htimes i hi n
  refine ⟨books_run (fun pre c hpre => (hcalls pre c hpre).1)
    (fun pre c hpre => (hcalls pre c hpre).2) hvalid, ?_⟩
  have hbook : logBook (serverCalls names place str level is) = ⟨level, .string str,
      [] ++ (logged level (statements names .new is)).map
        fun p => (.string str, entryOf names place p)⟩ := logBook_logCalls level _ _ []
  rw [hbook]
  simp only [LogBook.entriesFor, List.nil_append, List.flatMap_map, if_true]
  exact List.map_eq_flatMap.symm

/-- **When a server's log can be read back**: over every run of a `Network` object whose
statements go to a string, reading the string line by line gives back the statements of
the level in force, with their times and texts, all of them and in order, if and only if
none of them shows what a client sent or is sent.  No name from the C library holds a line
feed. -/
theorem serverLog_iff (str : UInt64) (level : eSeverityLevel) {hostname : Bytes}
    {is : List Served} (h : OneLine names place) (hhost : 10 ∉ cstr hostname)
    (hok : ∀ i ∈ is, i.Ok) :
    readLog hostname (takenBy (.string str) (trace GlobalLogger.step (.new hostname)
        (serverCalls names place str level is))) =
      (logged level (statements names .new is)).map (fun p => some (entryOf names place p)) ↔
    ∀ p ∈ logged level (statements names .new is), p.1.transfers = false := by
  have hserver : 10 ∉ Network.new.mServerIPString := List.not_mem_nil
  have hshows := showsLine_statements h hserver hok
  obtain ⟨hbooks, hentries⟩ := books_server names place str level hostname
    fun i hi => (hok i hi).1
  have hback := hbooks.reads_back hhost (.string str)
  rw [hentries, List.map_map, List.forall_mem_map] at hback
  refine hback.trans ⟨fun hno p hp => ?_, fun hno p hp => ?_⟩
  · have hmem := (List.mem_filter.mp hp).1
    rw [← Bool.not_eq_true, ← newline_mem_text_iff h (hshows p hmem)]
    exact hno p hp
  · have hmem := (List.mem_filter.mp hp).1
    show 10 ∉ (p.1.stream names place).text
    rw [newline_mem_text_iff h (hshows p hmem), Bool.not_eq_true]
    exact hno p hp

theorem oneLine_letters :
    OneLine ⟨fun _ => [49], fun _ => [63]⟩ fun _ => ⟨[102], [103], 7⟩ where
  inet_ntoa := fun _ => show 10 ∉ [49] by decide
  strerror := fun _ => show 10 ∉ [63] by decide
  mFunctionName := fun _ => show 10 ∉ cstr [102] by decide
  mFileName := fun _ => show 10 ∉ cstr [103] by decide

theorem valid_noon : LogTm.Valid ⟨⟨12, 0⟩, 124, 0, 1, 0⟩ := by constructor <;> decide

/-- A client that sends two bytes, is sent one, which two statements show a second apart, and
goes. -/
theorem serverLog_iff_gone :
    let names : Names := ⟨fun _ => [49], fun _ => [63]⟩
    let place : Statement → Place := fun _ => ⟨[102], [103], 7⟩
    let noon : ℕ → LogTm := fun n => ⟨⟨12, 0⟩, 124, 0, 1, if n = 0 then 0 else 1⟩
    let is : List Served := [⟨.call (.connectNewClient ⟨4, ⟨2, 0, 0⟩⟩ 0), 0, noon⟩,
      ⟨.call (.recvFromClient 4 (.data [72, 73])), 0, noon⟩,
      ⟨.call (.pushToSendBuffer 4 [74]), 0, noon⟩, ⟨.call (.sendToClient 4 (.sent 1)), 0, noon⟩,
      ⟨.call (.recvFromClient 4 (.data [])), 0, noon⟩]
    readLog [104] (takenBy (.string 16) (trace GlobalLogger.step (.new [104])
        (serverCalls names place 16 .Debug is))) =
      (logged .Debug (statements names .new is)).map (fun p => some (entryOf names place p)) ↔
    ∀ p ∈ logged .Debug (statements names .new is), p.1.transfers = false := by
  refine serverLog_iff 16 .Debug oneLine_letters (by decide) ?_
  have hok : ∀ c : Call, Served.Ok
      ⟨.call c, 0, fun n => ⟨⟨12, 0⟩, 124, 0, 1, if n = 0 then 0 else 1⟩⟩ := by
    refine fun c => ⟨fun n => ?_, fun ret setup h => by simp at h⟩
    dsimp only
    split_ifs
    · exact valid_noon
    · constructor <;> decide
  simp only [List.forall_mem_cons]
  exact ⟨hok _, hok _, hok _, hok _, hok _, fun i hi => absurd hi List.not_mem_nil⟩

/-! ### A line that a client writes -/

theorem statements_concat (names : Names) (i : Served) : ∀ (net : Network) (is : List Served),
    statements names net (is ++ [i]) = statements names net is ++
      ((final live net (is.map Served.act)).logs names i.act i.errno).zipIdx.map
        fun p => (p.1, i.localTime p.2) := by
  intro net is
  induction is generalizing net with
  | nil => exact List.append_nil _
  | cons j is ih =>
    show (net.logs names j.act j.errno).zipIdx.map _ ++ statements names _ (is ++ [i]) = _
    rw [ih]
    exact (List.append_assoc _ _ _).symm

/-- The statement that shows a message. -/
theorem logs_received (names : Names) {s : Session} (hs : net.mSessions k = some s)
    (hres : s.isReservedDisconnect = false) {bytes : Bytes} (hne : bytes ≠ [])
    (hnul : 0 ∉ bytes) (errno : ℤ) :
    net.logs names (.call (.recvFromClient k (.data bytes))) errno =
      [.received (net.getIPString names k) bytes] := by
  have hip : (net.setSession k s).getIPString names k = net.getIPString names k := by
    rw [Network.getIPString, Network.getIPString, Network.setSession_self, hs]
    rfl
  have hsess := Network.session_of_some hs
  have hlen : ¬ bytes.length = 0 := by simpa using hne
  have hbytes : cstr (bytes ++ [0]) = bytes := by
    rw [cstr_append_zero, cstr_eq_self_iff]
    exact hnul
  show net.recvFromClientLogs names k (.data bytes) errno = _
  rw [Network.recvFromClientLogs.eq_def, hsess]
  simp only [hres, Bool.false_eq_true, if_false, if_neg hlen, hbytes, hip]

/-- A log of lines is read on behind its end. -/
theorem readLog_append (hostname : Bytes) (ls : List Bytes) (rest : Bytes) :
    readLog hostname (ls.flatMap (· ++ [10]) ++ rest) =
      readLog hostname (ls.flatMap (· ++ [10])) ++ readLog hostname rest := by
  rcases List.eq_nil_or_concat ls with rfl | ⟨ls, l, rfl⟩
  · rfl
  · rw [List.concat_eq_append, List.flatMap_append, List.flatMap_singleton,
      ← List.append_assoc, readLog, Pieces.dropLast_splitOnP_append rfl, List.map_append]
    rfl

/-- The entry over a message, as it reads in the log. -/
def heading (ip : Bytes) (len : ℕ) (localTime : LogTm) : LogEntry where
  level := .Notice
  time := localTime
  text := chars "Received message from client(".toList ++ ip ++ chars ") ".toList ++ decimal len
    ++ chars "bytes".toList

theorem newline_notMem_heading {ip : Bytes} (hip : 10 ∉ ip) (len : ℕ) (localTime : LogTm) :
    10 ∉ (heading ip len localTime).text :=
  newline_notMem_address (newline_notMem_address (by decide) hip (by decide))
    (newline_notMem_decimal len) (by decide)

/-- The line of a message is that of its heading, and the message. -/
theorem body_received (names : Names) (place : Statement → Place) (hostname ip bytes : Bytes)
    (localTime : LogTm) :
    (entryOf names place (.received ip bytes, localTime)).body hostname ++ [10] =
      [(heading ip bytes.length localTime).body hostname, bytes].flatMap (· ++ [10]) := by
  have hbytes : chars "bytes\n".toList = chars "bytes".toList ++ [10] := rfl
  show levelTag .Notice ++ (GlobalLogger.getCurrentTime localTime ++ chars [' '] ++
    (cstr hostname ++ chars [' ', ':', ' '] ++ ((Statement.received ip bytes).text names ++ [])))
      ++ [10] = _
  simp only [Statement.text, LogEntry.body, heading, hbytes, List.flatMap_cons, List.flatMap_nil,
    List.append_assoc, List.append_nil]

/-- A line that a client can send in one piece: `recv()` is asked for one byte less than the
buffer holds, and what is behind a NUL is not shown. -/
structure Forgeable (hostname : Bytes) (e : LogEntry) : Prop where
  time : e.time.Valid
  text : 10 ∉ e.text
  nul : 0 ∉ e.body hostname
  fits : (e.body hostname).length ≤ kRecvBufferSize - 1

/-- **A client writes into the log.**  Whatever a server has logged before, a client with a
session that is not reserved for disconnection can add any entry whose line it can send: it
sends this line, which `recv()` may give back, and from then on the log reads as if the
heading of the message and the entry had been logged. -/
theorem log_forged (str : UInt64) {level : eSeverityLevel}
    (hlevel : eSeverityLevel.Notice.number ≤ level.number) (h : OneLine names place)
    {hostname : Bytes} (hhost : 10 ∉ cstr hostname) {is : List Served} (hok : ∀ i ∈ is, i.Ok)
    {s : Session} (hs : (final live .new (is.map Served.act)).mSessions k = some s)
    (hres : s.isReservedDisconnect = false) {e : LogEntry} (he : Forgeable hostname e)
    (errno : ℤ) {localTime : LogTm} (hnow : localTime.Valid) :
    let net := final live .new (is.map Served.act)
    let act := Act.call (.recvFromClient k (.data (e.body hostname)))
    (∀ call ∈ (live net act).2.sys, call.Ok) ∧
      readLog hostname (takenBy (.string str) (trace GlobalLogger.step (.new hostname)
          (serverCalls names place str level (is ++ [⟨act, errno, fun _ => localTime⟩])))) =
        readLog hostname (takenBy (.string str) (trace GlobalLogger.step (.new hostname)
          (serverCalls names place str level is))) ++
        [some (heading (net.getIPString names k) (e.body hostname).length localTime), some e] := by
  intro net act
  have hne : e.body hostname ≠ [] := List.cons_ne_nil _ _
  constructor
  · -- the only system call is the `recv()` of the line
    intro call hcall
    have hsys : (live net act).2.sys = [.recv k (.data (e.body hostname))] := by
      show (net.recvFromClient k (.data (e.body hostname))).2.2 = _
      have hlen : ¬ (e.body hostname).length = 0 := by simpa using hne
      rw [Network.recvFromClient, Network.session_of_some hs]
      simp only [hres, Bool.false_eq_true, if_false, if_neg hlen]
    rw [hsys] at hcall
    rw [List.mem_singleton.mp hcall]
    exact he.fits
  have htimes : ∀ j ∈ is ++ [⟨act, errno, fun _ => localTime⟩], ∀ n, (j.localTime n).Valid := by
    intro j hj
    rcases List.mem_append.mp hj with hj | hj
    · exact (hok j hj).1
    · rw [List.mem_singleton.mp hj]
      exact fun _ => hnow
  have hlogged : logged level (statements names .new (is ++ [⟨act, errno, fun _ => localTime⟩])) =
      logged level (statements names .new is) ++
        [(.received (net.getIPString names k) (e.body hostname), localTime)] := by
    rw [statements_concat]
    show logged level (statements names .new is ++ (net.logs names act errno).zipIdx.map _) = _
    rw [logs_received names hs hres hne he.nul, logged, List.filter_append, ← logged]
    exact congrArg _ (List.filter_cons_of_pos (decide_eq_true hlevel))
  obtain ⟨hbefore, hentries⟩ := books_server names place str level hostname fun j hj => (hok j hj).1
  obtain ⟨hafter, hentries'⟩ := books_server names place str level hostname htimes
  have hip : 10 ∉ net.getIPString names k :=
    newline_notMem_getIPString h (newline_notMem_server_run List.not_mem_nil hok)
  -- the line of the message is two lines, and they read as two entries
  let head := heading (net.getIPString names k) (e.body hostname).length localTime
  have hvalid : ∀ e' ∈ [head, e], e'.time.Valid :=
    List.forall_mem_cons.mpr ⟨hnow, List.forall_mem_singleton.mpr he.time⟩
  have htext : ∀ e' ∈ [head, e], 10 ∉ e'.text :=
    List.forall_mem_cons.mpr
      ⟨newline_notMem_heading hip _ _, List.forall_mem_singleton.mpr he.text⟩
  rw [hafter.received, hentries', hlogged, hbefore.received, hentries, List.map_append,
    List.map_append, List.flatMap_append, readLog_append]
  refine congrArg _ (Eq.trans ?_ (readLog_lines hhost hvalid htext))
  rw [List.map_singleton, List.map_singleton, List.flatMap_singleton, body_received]
  rfl

/-- A client that is just there, and an emergency of its own. -/
theorem log_forged_emergency :
    let names : Names := ⟨fun _ => [49], fun _ => [63]⟩
    let place : Statement → Place := fun _ => ⟨[102], [103], 7⟩
    let noon : LogTm := ⟨⟨12, 0⟩, 124, 0, 1, 0⟩
    let is : List Served := [⟨.call (.connectNewClient ⟨4, ⟨2, 0, 0⟩⟩ 0), 0, fun _ => noon⟩]
    let e : LogEntry := ⟨.Emergency, noon, [72, 73]⟩
    let net := final live .new (is.map Served.act)
    let act := Act.call (.recvFromClient 4 (.data (e.body [104])))
    (∀ call ∈ (live net act).2.sys, call.Ok) ∧
      readLog [104] (takenBy (.string 16) (trace GlobalLogger.step (.new [104])
          (serverCalls names place 16 .Notice (is ++ [⟨act, 0, fun _ => noon⟩])))) =
        readLog [104] (takenBy (.string 16) (trace GlobalLogger.step (.new [104])
          (serverCalls names place 16 .Notice is))) ++
        [some (heading (net.getIPString names 4) (e.body [104]).length noon), some e] := by
  refine log_forged (s := ⟨⟨2, 0, 0⟩, 4, [], [], 0, false, false⟩) 16 (by decide)
    oneLine_letters (by decide) ?_ ?_ rfl ⟨valid_noon, by decide, by decide, by decide⟩ 0
    valid_noon
  · exact List.forall_mem_singleton.mpr ⟨fun _ => valid_noon, fun ret setup h => by simp at h⟩
  · rfl

end Gdf
