/-
Threads that log.

Every `LOG` statement of every thread compares its level, and then calls `Log`, which
puts the line together and appends it to the string between `pthread_mutex_lock` and
`pthread_mutex_unlock`.  Appending reads the string and stores a longer one.  A thread
that finds the mutex locked waits; which thread goes next is up to the scheduler.

* `logs_step` — the invariant: the mutex belongs to the one thread that is inside, and
  what that thread has read is still what the string holds;
* `threads_log` — under every schedule the string holds whole lines, each statement's
  once, those of a thread in the order of its program;
* `threads_finish` — under every schedule that lets every thread go again and again, all
  statements are carried out, and the mutex is free.
-/
import BsdGdf.GlobalLogger
import Mathlib.Algebra.BigOperators.Group.Finset.Basic
import Mathlib.Data.Fintype.BigOperators
import Mathlib.Algebra.Order.BigOperators.Group.Finset

namespace Gdf

open Runs

/-- Where a thread is. -/
inductive LogPc
  /-- Before its next statement. -/
  | ready
  /-- At `pthread_mutex_lock`. -/
  | locking (s : LogStream)
  /-- The mutex is locked. -/
  | formatting (s : LogStream)
  | appending (toWriteString : Bytes)
  /-- The string has been read. -/
  | storing (read toWriteString : Bytes)
  /-- At `pthread_mutex_unlock`. -/
  | unlocking
  deriving DecidableEq, Repr

/-- A thread, with the statements it has yet to start. -/
structure LogThread where
  pc : LogPc
  todo : List LogStream
  deriving DecidableEq, Repr

/-- The logger with a string for its target, and the threads.  `delivered` is history:
who appended which line. -/
structure LogThreads (κ : Type*) where
  mLevel : eSeverityLevel
  mHostname : Bytes
  mFileMutex : Option κ
  mStringTarget : Bytes
  threads : κ → LogThread
  delivered : List (κ × Bytes)

namespace LogThreads

variable {κ : Type*} [DecidableEq κ]

/-- The thread of `k` changes. -/
def set (st : LogThreads κ) (k : κ) (th : LogThread) : LogThreads κ :=
  { st with threads := Function.update st.threads k th }

/-- The next step of thread `k`; `localTime` is the time, should it ask for it. -/
def step (st : LogThreads κ) (turn : κ × LogTm) : LogThreads κ × Unit :=
  let k := turn.1
  let th := st.threads k
  match th.pc with
  | .ready =>
    match th.todo with
    | [] => (st, ())
    | s :: rest =>
      -- `~LogStream()` looks at the level before it calls `Log`
      if s.mLevel.number ≤ st.mLevel.number then (st.set k ⟨.locking s, rest⟩, ())
      else (st.set k ⟨.ready, rest⟩, ())
  | .locking s =>
    match st.mFileMutex with
    | none => ({ st.set k ⟨.formatting s, th.todo⟩ with mFileMutex := some k }, ())
    | some _ => (st, ())
  | .formatting s =>
    (st.set k ⟨.appending (GlobalLogger.line st.mHostname s turn.2), th.todo⟩, ())
  | .appending line => (st.set k ⟨.storing st.mStringTarget line, th.todo⟩, ())
  | .storing read line =>
    ({ st.set k ⟨.unlocking, th.todo⟩ with
        mStringTarget := read ++ line
        delivered := st.delivered ++ [(k, line)] }, ())
  | .unlocking => ({ st.set k ⟨.ready, th.todo⟩ with mFileMutex := none }, ())

/-- The threads before their first statements. -/
def start (level : eSeverityLevel) (hostname text : Bytes) (program : κ → List LogStream) :
    LogThreads κ where
  mLevel := level
  mHostname := hostname
  mFileMutex := none
  mStringTarget := text
  threads := fun k => ⟨.ready, program k⟩
  delivered := []

/-- The lines that a thread appended. -/
def deliveredBy (st : LogThreads κ) (k : κ) : List Bytes :=
  st.delivered.flatMap fun d => if d.1 = k then [d.2] else []

/-- All statements are carried out. -/
def Done (st : LogThreads κ) : Prop := ∀ k, st.threads k = ⟨.ready, []⟩

end LogThreads

/-- The thread is between locking and unlocking. -/
def LogPc.inside : LogPc → Bool
  | .formatting _ => true
  | .appending _ => true
  | .storing _ _ => true
  | .unlocking => true
  | _ => false

/-- The line is one of the statement, at some time. -/
def LineOf (hostname line : Bytes) (s : LogStream) : Prop :=
  ∃ localTime, line = GlobalLogger.line hostname s localTime

/-- The statement that a thread has started and not delivered. -/
def LogPc.Pending (hostname : Bytes) (pending : List LogStream) : LogPc → Prop
  | .ready => pending = []
  | .locking s => pending = [s]
  | .formatting s => pending = [s]
  | .appending line => ∃ s, pending = [s] ∧ LineOf hostname line s
  | .storing _ line => ∃ s, pending = [s] ∧ LineOf hostname line s
  | .unlocking => pending = []

/-- The statements of a level in force. -/
def inForce (level : eSeverityLevel) (statements : List LogStream) : List LogStream :=
  statements.filter fun s => s.mLevel.number ≤ level.number

variable {κ : Type*} [DecidableEq κ] {level : eSeverityLevel} {hostname text : Bytes}
  {program : κ → List LogStream} {st : LogThreads κ}

theorem inForce_concat (level : eSeverityLevel) (l : List LogStream) (s : LogStream) :
    inForce level (l ++ [s]) =
      inForce level l ++ if s.mLevel.number ≤ level.number then [s] else [] := by
  rw [inForce, List.filter_append, List.filter_singleton]
  congr 1
  by_cases hlevel : s.mLevel.number ≤ level.number
  · rw [if_pos hlevel, decide_eq_true hlevel]
    rfl
  · rw [if_neg hlevel, decide_eq_false hlevel]
    rfl

/-- A thread has delivered the statements it started, but for the one it is at. -/
def Ordered (level : eSeverityLevel) (hostname : Bytes) (program : List LogStream)
    (delivered : List Bytes) (th : LogThread) : Prop :=
  ∃ started stated pending, program = started ++ th.todo ∧
    inForce level started = stated ++ pending ∧
    List.Forall₂ (LineOf hostname) delivered stated ∧ th.pc.Pending hostname pending

/-- What holds at every moment. -/
structure Logs (level : eSeverityLevel) (hostname text : Bytes) (program : κ → List LogStream)
    (st : LogThreads κ) : Prop where
  limit : st.mLevel = level
  host : st.mHostname = hostname
  /-- The mutex belongs to the thread that is inside. -/
  mutex : ∀ k, (st.threads k).pc.inside = true ↔ st.mFileMutex = some k
  /-- The string holds the lines delivered. -/
  string : st.mStringTarget = text ++ (st.delivered.map Prod.snd).flatten
  /-- What a thread has read of the string is current. -/
  current : ∀ k read line, (st.threads k).pc = .storing read line → read = st.mStringTarget
  order : ∀ k, Ordered level hostname (program k) (st.deliveredBy k) (st.threads k)

theorem logs_start (level : eSeverityLevel) (hostname text : Bytes)
    (program : κ → List LogStream) :
    Logs level hostname text program (.start level hostname text program) where
  limit := rfl
  host := rfl
  mutex := fun k => ⟨fun h => absurd h Bool.false_ne_true,
    fun h => absurd h (by simp [LogThreads.start])⟩
  string := (List.append_nil text).symm
  current := fun k read line h => absurd h (by simp [LogThreads.start])
  order := fun k => ⟨[], [], [], rfl, rfl, .nil, rfl⟩

/-- A step of thread `k` keeps the invariant if it keeps what concerns `k`, gives the mutex
to no other thread, and changes the string only with the mutex. -/
theorem Logs.of_set (h : Logs level hostname text program st) {st' : LogThreads κ} {k : κ}
    {th : LogThread} (hlimit : st'.mLevel = st.mLevel) (hhost : st'.mHostname = st.mHostname)
    (hthreads : st'.threads = Function.update st.threads k th)
    (hmutex : th.pc.inside = true ↔ st'.mFileMutex = some k)
    (hothers : ∀ j, j ≠ k → (st'.mFileMutex = some j ↔ st.mFileMutex = some j))
    (hstring : st'.mStringTarget = text ++ (st'.delivered.map Prod.snd).flatten)
    (hread : ∀ read line, th.pc = .storing read line → read = st'.mStringTarget)
    (hsame : st'.mStringTarget = st.mStringTarget ∨ st.mFileMutex = some k)
    (hdelivered : ∀ j, j ≠ k → st'.deliveredBy j = st.deliveredBy j)
    (horder : Ordered level hostname (program k) (st'.deliveredBy k) th) :
    Logs level hostname text program st' where
  limit := hlimit.trans h.limit
  host := hhost.trans h.host
  mutex := by
    intro j
    by_cases hj : j = k
    · rw [hj, hthreads, Function.update_self]
      exact hmutex
    · rw [hthreads, Function.update_of_ne hj, hothers j hj]
      exact h.mutex j
  string := hstring
  current := by
    intro j read line hpc
    by_cases hj : j = k
    · rw [hj, hthreads, Function.update_self] at hpc
      exact hread read line hpc
    · rw [hthreads, Function.update_of_ne hj] at hpc
      rcases hsame with hsame | hmine
      · rw [hsame]
        exact h.current j read line hpc
      · -- another thread that has read the string would have the mutex
        have htheirs := (h.mutex j).mp (by rw [hpc]; rfl)
        exact absurd (Option.some.inj (htheirs.symm.trans hmine)) hj
  order := by
    intro j
    by_cases hj : j = k
    · rw [hj, hthreads, Function.update_self]
      exact horder
    · rw [hthreads, Function.update_of_ne hj, hdelivered j hj]
      exact h.order j

/-- **Every step of every thread keeps the invariant.** -/
theorem logs_step (h : Logs level hostname text program st) (turn : κ × LogTm) :
    Logs level hostname text program (st.step turn).1 := by
  obtain ⟨k, localTime⟩ := turn
  obtain ⟨started, stated, pending, hprogram, hstarted, hstated, hpending⟩ := h.order k
  have hinside := h.mutex k
  have hmutex : ∀ pc : LogPc, pc.inside = (st.threads k).pc.inside →
      (pc.inside = true ↔ st.mFileMutex = some k) := by
    intro pc hpc
    rw [hpc]
    exact hinside
  rw [LogThreads.step]
  cases hpc : (st.threads k).pc with
  | ready =>
    rw [hpc] at hpending hmutex
    obtain rfl : pending = [] := hpending
    rw [List.append_nil] at hstarted
    rcases htodo : (st.threads k).todo with _ | ⟨s, rest⟩
    · exact h
    have hprogram' : program k = (started ++ [s]) ++ rest := by
      rw [hprogram, htodo, List.append_assoc]
      rfl
    have hforce := inForce_concat level started s
    rw [hstarted, ← h.limit] at hforce
    by_cases hlevel : s.mLevel.number ≤ st.mLevel.number
    · rw [if_pos hlevel, h.limit] at hforce
      simp only [if_pos hlevel]
      exact h.of_set rfl rfl rfl (hmutex _ rfl) (fun _ _ => Iff.rfl) h.string
        (fun _ _ hno => absurd hno (by simp)) (.inl rfl) (fun _ _ => rfl)
        ⟨_, _, _, hprogram', hforce, hstated, rfl⟩
    · rw [if_neg hlevel, h.limit] at hforce
      simp only [if_neg hlevel]
      exact h.of_set rfl rfl rfl (hmutex _ rfl) (fun _ _ => Iff.rfl) h.string
        (fun _ _ hno => absurd hno (by simp)) (.inl rfl) (fun _ _ => rfl)
        ⟨_, _, _, hprogram', hforce, hstated, rfl⟩
  | locking s =>
    rw [hpc] at hpending
    cases hlock : st.mFileMutex with
    | some j => exact h
    | none =>
      refine h.of_set rfl rfl rfl ⟨fun _ => rfl, fun _ => rfl⟩ (fun j hj => ?_) h.string
        (fun _ _ hno => absurd hno (by simp)) (.inl rfl) (fun _ _ => rfl)
        ⟨_, _, _, hprogram, hstarted, hstated, hpending⟩
      rw [hlock]
      exact ⟨fun hno => absurd (Option.some.inj hno).symm hj, fun hno => absurd hno (by simp)⟩
  | formatting s =>
    rw [hpc] at hpending hmutex
    exact h.of_set rfl rfl rfl (hmutex _ rfl) (fun _ _ => Iff.rfl) h.string
      (fun _ _ hno => absurd hno (by simp)) (.inl rfl) (fun _ _ => rfl)
      ⟨_, _, _, hprogram, hstarted, hstated, s, hpending, localTime, by rw [h.host]⟩
  | appending line =>
    rw [hpc] at hpending hmutex
    refine h.of_set rfl rfl rfl (hmutex _ rfl) (fun _ _ => Iff.rfl) h.string
      (fun read line' hstoring => ?_) (.inl rfl) (fun _ _ => rfl)
      ⟨_, _, _, hprogram, hstarted, hstated, hpending⟩
    obtain ⟨rfl, -⟩ := LogPc.storing.inj hstoring
    rfl
  | storing read line =>
    rw [hpc] at hpending hmutex hinside
    have hread := h.current k read line hpc
    obtain ⟨s, hs, hline⟩ := hpending
    refine h.of_set rfl rfl rfl (hmutex _ rfl) (fun _ _ => Iff.rfl) ?_
      (fun _ _ hno => absurd hno (by simp)) (.inr (hinside.mp rfl)) (fun j hj => ?_)
      ⟨_, stated ++ pending, [], hprogram, by rw [List.append_nil, hstarted], ?_, rfl⟩
    · show read ++ line = text ++ ((st.delivered ++ [(k, line)]).map Prod.snd).flatten
      rw [hread, h.string]
      simp
    · show (st.delivered ++ [(k, line)]).flatMap _ = st.deliveredBy j
      rw [List.flatMap_append, List.flatMap_singleton, if_neg (Ne.symm hj), List.append_nil]
      rfl
    · show List.Forall₂ _ ((st.delivered ++ [(k, line)]).flatMap _) _
      rw [List.flatMap_append, List.flatMap_singleton, if_pos rfl, hs]
      exact List.rel_append hstated (.cons hline .nil)
  | unlocking =>
    rw [hpc] at hpending
    have hmine := hinside.mp (by rw [hpc]; rfl)
    refine h.of_set rfl rfl rfl ⟨fun hno => absurd hno Bool.false_ne_true,
      fun hno => absurd hno (by simp)⟩ (fun j hj => ?_) h.string
      (fun _ _ hno => absurd hno (by simp)) (.inl rfl) (fun _ _ => rfl)
      ⟨_, _, _, hprogram, hstarted, hstated, hpending⟩
    rw [hmine]
    exact ⟨fun hno => absurd hno (by simp), fun hno => absurd (Option.some.inj hno).symm hj⟩

/-- The statements a thread has delivered are the first of its program. -/
theorem Logs.stated (h : Logs level hostname text program st) (k : κ) :
    ∃ stated rest, inForce level (program k) = stated ++ rest ∧
      List.Forall₂ (LineOf hostname) (st.deliveredBy k) stated ∧
      (st.threads k = ⟨.ready, []⟩ → rest = []) := by
  obtain ⟨started, stated, pending, hprogram, hstarted, hstated, hpending⟩ := h.order k
  have hforce : inForce level (program k) =
      stated ++ (pending ++ inForce level (st.threads k).todo) := by
    rw [hprogram, inForce, List.filter_append, ← inForce, ← inForce, hstarted, List.append_assoc]
  refine ⟨stated, _, hforce, hstated, fun hdone => ?_⟩
  rw [hdone] at hpending ⊢
  obtain rfl : pending = [] := hpending
  rfl

theorem logs_run (level : eSeverityLevel) (hostname text : Bytes)
    (program : κ → List LogStream) (schedule : List (κ × LogTm)) :
    Always LogThreads.step (.start level hostname text program)
      (fun _ st => Logs level hostname text program st) schedule := by
  refine always_of_step (P := fun _ _ _ => True) (logs_start level hostname text program) ?_
    (Along.of_forall fun _ _ _ _ => trivial)
  intro _ _ turn h _
  exact logs_step h turn

/-- **No line is lost, torn or repeated.**  Any threads with any programs, under every
schedule: at every moment the string holds the lines delivered, whole and one after the
other, no two threads are inside, and a thread has delivered a first part of its
statements of a level in force, in their order; all of them when it is done. -/
theorem threads_log (level : eSeverityLevel) (hostname text : Bytes)
    (program : κ → List LogStream) (schedule : List (κ × LogTm)) :
    Always LogThreads.step (.start level hostname text program) (fun _ st =>
      st.mStringTarget = text ++ (st.delivered.map Prod.snd).flatten ∧
      (∀ j k, (st.threads j).pc.inside = true → (st.threads k).pc.inside = true → j = k) ∧
      ∀ k, ∃ stated rest, inForce level (program k) = stated ++ rest ∧
        List.Forall₂ (LineOf hostname) (st.deliveredBy k) stated ∧
        (st.threads k = ⟨.ready, []⟩ → rest = [])) schedule := by
  intro pre hpre
  have h := logs_run level hostname text program schedule pre hpre
  refine ⟨h.string, fun j k hj hk => ?_, fun k => h.stated k⟩
  exact Option.some.inj (((h.mutex j).mp hj).symm.trans ((h.mutex k).mp hk))

/-! ### Carrying out all statements -/

/-- The steps that are left of a statement. -/
def LogPc.left : LogPc → ℕ
  | .ready => 0
  | .locking _ => 5
  | .formatting _ => 4
  | .appending _ => 3
  | .storing _ _ => 2
  | .unlocking => 1

/-- The steps that are left of a thread. -/
def LogThread.left (th : LogThread) : ℕ := 6 * th.todo.length + th.pc.left

/-- The steps that are left of all threads. -/
def LogThreads.left [Fintype κ] (st : LogThreads κ) : ℕ := ∑ k, (st.threads k).left

theorem left_set [Fintype κ] {st st' : LogThreads κ} {k : κ} {th : LogThread}
    (hthreads : st'.threads = Function.update st.threads k th)
    (hlt : th.left < (st.threads k).left) : st'.left < st.left := by
  rw [LogThreads.left, LogThreads.left, hthreads]
  refine Finset.sum_lt_sum (fun j _ => ?_) ⟨k, Finset.mem_univ k, ?_⟩
  · by_cases hj : j = k
    · rw [hj, Function.update_self]
      exact hlt.le
    · rw [Function.update_of_ne hj]
  · rw [Function.update_self]
    exact hlt

/-- A thread that is neither done nor waiting for the mutex makes a step. -/
theorem left_step [Fintype κ] (st : LogThreads κ) (turn : κ × LogTm)
    (hready : st.threads turn.1 ≠ ⟨.ready, []⟩)
    (hfree : ∀ s, (st.threads turn.1).pc = .locking s → st.mFileMutex = none) :
    (st.step turn).1.left < st.left := by
  obtain ⟨k, localTime⟩ := turn
  rw [LogThreads.step]
  cases hpc : (st.threads k).pc with
  | ready =>
    rcases htodo : (st.threads k).todo with _ | ⟨s, rest⟩
    · have hdone : st.threads k = ⟨.ready, []⟩ := by rw [← hpc, ← htodo]
      exact absurd hdone hready
    have hlt : ∀ pc : LogPc, pc.left ≤ 5 → LogThread.left ⟨pc, rest⟩ < (st.threads k).left := by
      intro pc hle
      rw [LogThread.left, LogThread.left, htodo, List.length_cons]
      show 6 * rest.length + pc.left < _
      omega
    by_cases hlevel : s.mLevel.number ≤ st.mLevel.number
    · simp only [if_pos hlevel]
      exact left_set rfl (hlt (.locking s) le_rfl)
    · simp only [if_neg hlevel]
      exact left_set rfl (hlt .ready (Nat.zero_le 5))
  | locking s =>
    simp only [hfree s hpc]
    exact left_set rfl (by rw [LogThread.left, LogThread.left, hpc]; exact Nat.lt_succ_self _)
  | formatting s =>
    exact left_set rfl (by rw [LogThread.left, LogThread.left, hpc]; exact Nat.lt_succ_self _)
  | appending line =>
    exact left_set rfl (by rw [LogThread.left, LogThread.left, hpc]; exact Nat.lt_succ_self _)
  | storing read line =>
    exact left_set rfl (by rw [LogThread.left, LogThread.left, hpc]; exact Nat.lt_succ_self _)
  | unlocking =>
    exact left_set rfl (by rw [LogThread.left, LogThread.left, hpc]; exact Nat.lt_succ_self _)

theorem step_waiting (st : LogThreads κ) (turn : κ × LogTm)
    (h : st.threads turn.1 = ⟨.ready, []⟩ ∨
      ∃ s, (st.threads turn.1).pc = .locking s ∧ st.mFileMutex ≠ none) :
    (st.step turn).1 = st := by
  obtain ⟨k, localTime⟩ := turn
  rw [LogThreads.step]
  rcases h with h | ⟨s, hpc, hlock⟩
  · simp only at h
    simp only [h]
  · obtain ⟨j, hj⟩ := Option.ne_none_iff_exists'.mp hlock
    simp only at hpc
    simp only [hpc, hj]

/-- While not all is done, someone can go on: the thread inside, or anyone. -/
theorem exists_turn [Fintype κ] (h : Logs level hostname text program st) (hno : ¬ st.Done) :
    ∃ k, ∀ turn : κ × LogTm, turn.1 = k → (st.step turn).1.left < st.left := by
  obtain ⟨k, hk⟩ := not_forall.mp hno
  cases hlock : st.mFileMutex with
  | none =>
    refine ⟨k, ?_⟩
    rintro turn rfl
    exact left_step st turn hk fun _ _ => hlock
  | some j =>
    -- the thread with the mutex is inside, so it need not wait
    have hinside := (h.mutex j).mpr hlock
    refine ⟨j, ?_⟩
    rintro turn rfl
    refine left_step st turn (fun hready => ?_) (fun s hpc => ?_)
    · rw [hready] at hinside
      exact absurd hinside Bool.false_ne_true
    · rw [hpc] at hinside
      exact absurd hinside Bool.false_ne_true

omit [DecidableEq κ] in
theorem done_of_left [Fintype κ] (hleft : st.left = 0) : st.Done := by
  intro k
  have hnone : (st.threads k).left = 0 := Finset.sum_eq_zero_iff.mp hleft k (Finset.mem_univ k)
  rcases hth : st.threads k with ⟨pc, todo⟩
  rw [hth, LogThread.left] at hnone
  obtain ⟨htodo, hpc⟩ := Nat.add_eq_zero_iff.mp hnone
  have hlen : todo.length = 0 := (Nat.mul_eq_zero.mp htodo).resolve_left (by decide)
  obtain rfl : todo = [] := List.length_eq_zero_iff.mp hlen
  cases pc with
  | ready => rfl
  | _ => exact absurd hpc (Nat.succ_ne_zero _)

theorem free_of_done (h : Logs level hostname text program st) (hdone : st.Done) :
    st.mFileMutex = none := by
  cases hlock : st.mFileMutex with
  | none => rfl
  | some k =>
    have hinside := (h.mutex k).mpr hlock
    rw [hdone k] at hinside
    exact absurd hinside Bool.false_ne_true

/-- **Nobody waits for ever.**  Under every schedule that gives every thread a turn in
each of enough rounds, in any order and with any other turns between, all statements are
carried out, and the mutex is free. -/
theorem threads_finish [Fintype κ] (level : eSeverityLevel) (hostname text : Bytes)
    (program : κ → List LogStream) {rounds : List (List (κ × LogTm))}
    (hfair : ∀ round ∈ rounds, ∀ k, ∃ turn ∈ round, turn.1 = k)
    (henough : ∑ k, 6 * (program k).length ≤ rounds.length) :
    let st := final LogThreads.step (.start level hostname text program) rounds.flatten
    st.Done ∧ st.mFileMutex = none ∧
      ∀ k, List.Forall₂ (LineOf hostname) (st.deliveredBy k) (inForce level (program k)) := by
  intro st
  have hkeep : ∀ st (turn : κ × LogTm), Logs level hostname text program st →
      Logs level hostname text program (st.step turn).1 := fun _ turn h => logs_step h turn
  have hlower : ∀ st (turn : κ × LogTm), Logs level hostname text program st →
      (st.step turn).1 = st ∨ (st.step turn).1.left < st.left := by
    intro st turn _
    by_cases hready : st.threads turn.1 = ⟨.ready, []⟩
    · exact .inl (step_waiting st turn (.inl hready))
    by_cases hfree : ∀ s, (st.threads turn.1).pc = .locking s → st.mFileMutex = none
    · exact .inr (left_step st turn hready hfree)
    · obtain ⟨s, hs⟩ := not_forall.mp hfree
      obtain ⟨hpc, hlock⟩ := Classical.not_imp.mp hs
      exact .inl (step_waiting st turn (.inr ⟨s, hpc, hlock⟩))
  have hdone : st.Done := done_of_rounds hkeep hlower (fun _ _ => done_of_left)
    (fun _ h hno => exists_turn h hno)
    (fun st turn _ hdone => step_waiting st turn (.inl (hdone turn.1)))
    (logs_start level hostname text program) hfair henough
  have hlast := (logs_run level hostname text program rounds.flatten).last
  refine ⟨hdone, free_of_done hlast hdone, fun k => ?_⟩
  obtain ⟨stated, rest, hforce, hstated, hrest⟩ := hlast.stated k
  rw [hforce, hrest (hdone k), List.append_nil]
  exact hstated

/-- Two threads with a statement each, both of a level in force: the second finds the mutex
locked. -/
theorem threads_finish_two :
    let program : Bool → List LogStream := fun k =>
      [⟨if k then .Warning else .Notice, [], [], 7, [97]⟩]
    let time : LogTm := ⟨⟨9, 0⟩, 124, 0, 1, 0⟩
    let st := final LogThreads.step (.start .Informational [104, 0] [] program)
      (List.replicate 12 [(false, time), (true, time)]).flatten
    st.Done ∧ st.mFileMutex = none ∧ ∀ k, List.Forall₂ (LineOf [104, 0]) (st.deliveredBy k)
      (inForce .Informational (program k)) := by
  refine threads_finish .Informational [104, 0] [] _ (fun round hround k => ?_) ?_
  · rw [List.eq_of_mem_replicate hround]
    cases k with
    | false => exact ⟨_, List.mem_cons_self, rfl⟩
    | true => exact ⟨_, List.mem_cons_of_mem _ List.mem_cons_self, rfl⟩
  · rw [Fintype.sum_bool, List.length_replicate]
    exact le_rfl

end Gdf
