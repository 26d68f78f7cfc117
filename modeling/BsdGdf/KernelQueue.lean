/-
The class `KernelQueue`: events of the kernel, fetched in batches with `kevent()` and
handed out one by one by `Poll`.

The abstract view of the queue is a `Pipe`: a fetch pushes a batch, a `Poll` that
returns an event takes one.  `Holds q p` says that the event list, the count and the
index of `q` hold the pipe `p`; every call keeps it (`holds_step`), and
`events_delivered_once` reads off it that every event comes out exactly once and in
order, whatever fetches fail or come back empty.

The event list is the list of its entries (empty for `NULL`); the count and the index
are plain integers, which the invariant keeps between 0 and 128.
-/
import BsdGdf.Config
import BsdGdf.Streams
import BsdGdf.Runs
import Mathlib.Tactic.SplitIfs
import Mathlib.Logic.Basic

namespace Gdf

open Runs

/-- `struct kevent`. -/
structure Kevent where
  ident : UInt64
  filter : Int16
  flags : UInt16
  fflags : UInt32
  data : Int64
  udata : UInt64
  deriving DecidableEq, Repr

/-- An entry that `memset` cleared. -/
def Kevent.zero : Kevent := ⟨0, 0, 0, 0, 0, 0⟩

/-- `class KernelEvent`. -/
structure KernelEvent where
  mIdentifier : UInt64
  mFilter : Int16
  mFlags : UInt16
  mFilterFlags : UInt32
  mData : Int64
  mUserData : UInt64
  deriving DecidableEq, Repr

/-- `struct timespec`. -/
structure Timespec where
  tv_sec : ℤ
  tv_nsec : ℤ
  deriving DecidableEq, Repr

def EVFILT_READ : Int16 := -1
def EVFILT_WRITE : Int16 := -2
def EV_ADD : UInt16 := 1
def EV_ENABLE : UInt16 := 4

/-- `MAX_KEVENT_SIZE`. -/
def MAX_KEVENT_SIZE : ℕ := 128

/-- A call of `kevent()`: a change to the queue `kq`, or a fetch, which fails or fills
in a batch of entries. -/
inductive KeventCall
  | change (kq : int32) (newEvent : Kevent) (ret : int32)
  | fetch (kq : int32) (timeout : Timespec) (ret : Option (List Kevent))
  deriving DecidableEq, Repr

/-- `class KernelQueue`. -/
structure KernelQueue where
  mKqueue : int32
  mEventList : List Kevent
  mEventCount : ℤ
  mEventIndex : ℤ
  mTimeout : Timespec
  deriving DecidableEq, Repr

namespace KernelQueue

/-- `SetTimeout(ms)`; division and remainder of C++ round toward zero. -/
def setTimeout (q : KernelQueue) (ms : ℤ) : KernelQueue :=
  { q with mTimeout := ⟨ms.tdiv 1000, ms.tmod 1000 * 1000 * 1000⟩ }

/-- `KernelQueue::KernelQueue()`. -/
def new : KernelQueue :=
  let q : KernelQueue := ⟨ERROR, [], 0, 0, ⟨0, 0⟩⟩
  q.setTimeout 5

/-- `createKqueue()`; `ret` is what `kqueue()` returns. -/
def createKqueue (q : KernelQueue) (ret : int32) : KernelQueue × Bool :=
  let q := { q with mKqueue := ret }
  if q.mKqueue = ERROR then
    (q, FAILURE)
  else
    (q, SUCCESS)

/-- `Init()`; `alloc` says that `new (std::nothrow)` got the memory. -/
def init (q : KernelQueue) (alloc : Bool) (ret : int32) : KernelQueue × Bool :=
  if alloc = false then
    ({ q with mEventList := [] }, FAILURE)
  else
    let q := { q with mEventList := List.replicate MAX_KEVENT_SIZE Kevent.zero }
    q.createKqueue ret

/-- `AddReadEvent(fd)` and `AddWriteEvent(fd)`, which differ in the filter; an `fd` is
converted to `uintptr_t` with its sign. -/
def addEvent (filter : Int16) (q : KernelQueue) (fd ret : int32) : Bool × List KeventCall :=
  let newEvent : Kevent := ⟨fd.toInt64.toUInt64, filter, EV_ADD ||| EV_ENABLE, 0, 0, 0⟩
  let call := KeventCall.change q.mKqueue newEvent ret
  if ret = ERROR then
    (FAILURE, [call])
  else
    (SUCCESS, [call])

/-- `AddReadEvent(fd)`. -/
def addReadEvent : KernelQueue → int32 → int32 → Bool × List KeventCall := addEvent EVFILT_READ

/-- `AddWriteEvent(fd)`. -/
def addWriteEvent : KernelQueue → int32 → int32 → Bool × List KeventCall := addEvent EVFILT_WRITE

/-- `getEventList()`: `kevent()` overwrites the first entries of the list. -/
def getEventList (q : KernelQueue) (ret : Option (List Kevent)) :
    KernelQueue × Option (List Kevent) × List KeventCall :=
  let call := KeventCall.fetch q.mKqueue q.mTimeout ret
  match ret with
  | none => ({ q with mEventCount := -1 }, none, [call])
  | some batch =>
    let q := { q with
      mEventList := batch ++ q.mEventList.drop batch.length
      mEventCount := batch.length }
    (q, some q.mEventList, [call])

/-- `Poll(event)`; the third component is `event` afterwards. -/
def poll (q : KernelQueue) (event : KernelEvent) (ret : Option (List Kevent)) :
    KernelQueue × Bool × KernelEvent × List KeventCall :=
  -- nothing is left of the last batch: this call only fetches
  if q.mEventCount = q.mEventIndex then
    let (q, _, calls) := q.getEventList ret
    let q := if q.mEventCount = -1 then { q with mEventCount := 0 } else q
    ({ q with mEventIndex := 0 }, false, event, calls)
  else
    let current := q.mEventList.getD q.mEventIndex.toNat Kevent.zero
    let event : KernelEvent :=
      { mIdentifier := current.ident
        mFilter := current.filter
        mFlags := current.flags
        mFilterFlags := current.fflags
        mData := current.data
        mUserData := current.udata }
    ({ q with mEventIndex := q.mEventIndex + 1 }, true, event, [])

/-- The entries that were fetched and not handed out yet. -/
def unread (q : KernelQueue) : List Kevent :=
  (q.mEventList.take q.mEventCount.toNat).drop q.mEventIndex.toNat

end KernelQueue

/-! ### Runs -/

/-- A call of a method after `Init`, with the answers of the kernel. -/
inductive QueueCall
  | poll (event : KernelEvent) (ret : Option (List Kevent))
  | addReadEvent (fd ret : int32)
  | addWriteEvent (fd ret : int32)
  | setTimeout (ms : ℤ)
  deriving DecidableEq, Repr

/-- What it returns; `polled` has `event` afterwards. -/
inductive QueueRet
  | void
  | bool (b : Bool)
  | polled (b : Bool) (event : KernelEvent)
  deriving DecidableEq, Repr

/-- What it returns, and its calls of `kevent()`. -/
structure QueueReply where
  ret : QueueRet
  calls : List KeventCall
  deriving DecidableEq, Repr

namespace KernelQueue

/-- Perform a call. -/
def step (q : KernelQueue) : QueueCall → KernelQueue × QueueReply
  | .poll event ret =>
    let r := q.poll event ret
    (r.1, ⟨.polled r.2.1 r.2.2.1, r.2.2.2⟩)
  | .addReadEvent fd ret =>
    let r := q.addReadEvent fd ret
    (q, ⟨.bool r.1, r.2⟩)
  | .addWriteEvent fd ret =>
    let r := q.addWriteEvent fd ret
    (q, ⟨.bool r.1, r.2⟩)
  | .setTimeout ms => (q.setTimeout ms, ⟨.void, []⟩)

end KernelQueue

/-- A step of such a run. -/
abbrev QueueEvent := Event KernelQueue QueueCall QueueReply

/-- The six fields of an entry, as a `KernelEvent`. -/
def Kevent.toKernelEvent (e : Kevent) : KernelEvent :=
  ⟨e.ident, e.filter, e.flags, e.fflags, e.data, e.udata⟩

/-- The fetches of a call. -/
def fetches (r : QueueReply) : List (Option (List Kevent)) :=
  r.calls.filterMap fun
    | .fetch _ _ ret => some ret
    | .change _ _ _ => none

/-- The event a call returned. -/
def returnedBy (r : QueueReply) : List KernelEvent :=
  match r.ret with
  | .polled true event => [event]
  | _ => []

/-- All batches fetched so far, one after the other. -/
def fetched (es : List QueueEvent) : List Kevent :=
  es.flatMap fun e => (fetches e.output).flatMap fun ret => ret.getD []

/-- The events `Poll` has returned so far. -/
def returned (es : List QueueEvent) : List KernelEvent :=
  es.flatMap fun e => returnedBy e.output

/-- The batch of the latest fetch, empty if it failed or there was none. -/
def latest (es : List QueueEvent) : List Kevent :=
  es.foldl (fun batch e => (fetches e.output).foldl (fun _ ret => ret.getD []) batch) []

/-- `kevent()` fills in at most what the list holds. -/
def FetchOk (q : KernelQueue) (c : QueueCall) : Prop :=
  ∀ ret ∈ fetches (q.step c).2, (ret.getD []).length ≤ MAX_KEVENT_SIZE

instance (q : KernelQueue) (c : QueueCall) : Decidable (FetchOk q c) :=
  inferInstanceAs (Decidable (∀ ret ∈ fetches (q.step c).2, _))

variable {q : KernelQueue} {c : QueueCall} {p : Pipe Kevent} {es : List QueueEvent}

/-- What `Poll` can do. -/
theorem poll_cases (q : KernelQueue) (event : KernelEvent) (ret : Option (List Kevent)) :
    (q.mEventCount = q.mEventIndex ∧ ret = none ∧
      q.poll event ret = ({ q with mEventCount := 0, mEventIndex := 0 }, false, event,
        [.fetch q.mKqueue q.mTimeout none])) ∨
    (∃ batch, q.mEventCount = q.mEventIndex ∧ ret = some batch ∧
      q.poll event ret =
        ({ q with
            mEventList := batch ++ q.mEventList.drop batch.length,
            mEventCount := batch.length, mEventIndex := 0 }, false, event,
          [.fetch q.mKqueue q.mTimeout (some batch)])) ∨
    (q.mEventCount ≠ q.mEventIndex ∧
      q.poll event ret = ({ q with mEventIndex := q.mEventIndex + 1 }, true,
        (q.mEventList.getD q.mEventIndex.toNat Kevent.zero).toKernelEvent, [])) := by
  by_cases heq : q.mEventCount = q.mEventIndex
  · cases ret with
    | none => exact .inl ⟨heq, rfl, by simp [KernelQueue.poll, KernelQueue.getEventList, heq]⟩
    | some batch =>
      have hne : (batch.length : ℤ) ≠ -1 := by omega
      exact .inr (.inl ⟨batch, heq, rfl, by
        simp [KernelQueue.poll, KernelQueue.getEventList, heq, hne]⟩)
  · exact .inr (.inr ⟨heq, by simp [KernelQueue.poll, heq, Kevent.toKernelEvent]⟩)

/-- The other methods fetch nothing, return no event, and leave what `Poll` reads. -/
theorem step_of_not_poll (h : ∀ event ret, c ≠ .poll event ret) :
    fetches (q.step c).2 = [] ∧ returnedBy (q.step c).2 = [] ∧
    (q.step c).1.mEventList = q.mEventList ∧ (q.step c).1.mEventCount = q.mEventCount ∧
    (q.step c).1.mEventIndex = q.mEventIndex := by
  have hadd : ∀ (filter : Int16) (fd ret : int32),
      fetches ⟨.bool (KernelQueue.addEvent filter q fd ret).1,
        (KernelQueue.addEvent filter q fd ret).2⟩ = [] := by
    intro filter fd ret
    rw [KernelQueue.addEvent]
    split_ifs <;> rfl
  cases c with
  | poll event ret => exact absurd rfl (h event ret)
  | addReadEvent fd ret => exact ⟨hadd EVFILT_READ fd ret, rfl, rfl, rfl, rfl⟩
  | addWriteEvent fd ret => exact ⟨hadd EVFILT_WRITE fd ret, rfl, rfl, rfl, rfl⟩
  | setTimeout ms => exact ⟨rfl, rfl, rfl, rfl, rfl⟩

theorem fetched_concat (e : QueueEvent) :
    fetched (es ++ [e]) = fetched es ++ (fetches e.output).flatMap fun ret => ret.getD [] := by
  simp [fetched]

theorem returned_concat (e : QueueEvent) :
    returned (es ++ [e]) = returned es ++ returnedBy e.output := by
  simp [returned]

theorem latest_concat (e : QueueEvent) :
    latest (es ++ [e]) = (fetches e.output).foldl (fun _ ret => ret.getD []) (latest es) := by
  simp only [latest, List.foldl_append, List.foldl_cons, List.foldl_nil]

/-! ### The queue holds a pipe -/

/-- The list, the count and the index hold the pipe: what is in it are the entries
that were not handed out yet. -/
structure Holds (q : KernelQueue) (p : Pipe Kevent) : Prop where
  nonneg : 0 ≤ q.mEventIndex
  index_le : q.mEventIndex ≤ q.mEventCount
  count_le : q.mEventCount ≤ MAX_KEVENT_SIZE
  length : q.mEventList.length = MAX_KEVENT_SIZE
  pending : p.pending = q.unread

/-- Nothing is unread exactly when `Poll` will fetch. -/
theorem Holds.unread_eq_nil_iff (h : Holds q p) :
    q.unread = [] ↔ q.mEventCount = q.mEventIndex := by
  have hindex := h.index_le
  have hcount := h.count_le
  have hnonneg := h.nonneg
  rw [KernelQueue.unread, List.drop_eq_nil_iff, List.length_take, h.length]
  omega

/-- The entry `Poll` reads is the first unread one. -/
theorem Holds.unread_eq_cons (h : Holds q p) (hne : q.mEventCount ≠ q.mEventIndex) :
    q.unread = q.mEventList.getD q.mEventIndex.toNat Kevent.zero ::
      { q with mEventIndex := q.mEventIndex + 1 }.unread := by
  have hindex := h.index_le
  have hcount := h.count_le
  have hnonneg := h.nonneg
  have hlt : q.mEventIndex.toNat < q.mEventList.length := by
    rw [h.length]
    omega
  have hread : q.mEventIndex.toNat < (q.mEventList.take q.mEventCount.toNat).length := by
    rw [List.length_take, h.length]
    omega
  have hnext : (q.mEventIndex + 1).toNat = q.mEventIndex.toNat + 1 := by omega
  have hfirst : q.mEventList.getD q.mEventIndex.toNat Kevent.zero =
      q.mEventList[q.mEventIndex.toNat] := by
    rw [List.getD_eq_getElem?_getD, List.getElem?_eq_getElem hlt]
    rfl
  show (q.mEventList.take q.mEventCount.toNat).drop q.mEventIndex.toNat = _ ::
    (q.mEventList.take q.mEventCount.toNat).drop (q.mEventIndex + 1).toNat
  rw [List.drop_eq_getElem_cons hread, List.getElem_take, hfirst, hnext]

/-- The list, the count and the index are all that the pipe depends on. -/
theorem Holds.congr {q' : KernelQueue} (h : Holds q p) (hlist : q'.mEventList = q.mEventList)
    (hcount : q'.mEventCount = q.mEventCount) (hindex : q'.mEventIndex = q.mEventIndex) :
    Holds q' p := by
  refine ⟨?_, ?_, ?_, ?_, ?_⟩
  · rw [hindex]
    exact h.nonneg
  · rw [hindex, hcount]
    exact h.index_le
  · rw [hcount]
    exact h.count_le
  · rw [hlist]
    exact h.length
  · rw [h.pending, KernelQueue.unread, KernelQueue.unread, hlist, hcount, hindex]

/-- The empty pipe, after a fetch that failed. -/
theorem Holds.fail (h : Holds q p) (hempty : q.mEventCount = q.mEventIndex) :
    Holds { q with mEventCount := 0, mEventIndex := 0 } p where
  nonneg := Int.le_refl 0
  index_le := Int.le_refl 0
  count_le := Int.natCast_nonneg _
  length := h.length
  pending := by
    rw [h.pending, h.unread_eq_nil_iff.mpr hempty]
    simp [KernelQueue.unread]

/-- A batch goes in at the back. -/
theorem Holds.fetch (h : Holds q p) {batch : List Kevent}
    (hempty : q.mEventCount = q.mEventIndex) (hok : batch.length ≤ MAX_KEVENT_SIZE) :
    Holds { q with
      mEventList := batch ++ q.mEventList.drop batch.length
      mEventCount := batch.length
      mEventIndex := 0 } (p.push batch) where
  nonneg := Int.le_refl 0
  index_le := Int.natCast_nonneg _
  count_le := Int.ofNat_le.mpr hok
  length := by
    rw [List.length_append, List.length_drop, h.length]
    omega
  pending := by
    show p.pending ++ batch = _
    rw [h.pending, h.unread_eq_nil_iff.mpr hempty]
    simp [KernelQueue.unread]

/-- An event comes out at the front. -/
theorem Holds.next (h : Holds q p) (hne : q.mEventCount ≠ q.mEventIndex) :
    Holds { q with mEventIndex := q.mEventIndex + 1 } (p.take 1) where
  nonneg := by
    have hnonneg := h.nonneg
    show 0 ≤ q.mEventIndex + 1
    omega
  index_le := by
    have hindex := h.index_le
    show q.mEventIndex + 1 ≤ q.mEventCount
    omega
  count_le := h.count_le
  length := h.length
  pending := by
    show p.pending.drop 1 = _
    rw [h.pending, h.unread_eq_cons hne]
    rfl

/-- The history of a run: the pipe of everything fetched and returned, and the batch
that stands in the list. -/
def Delivers (es : List QueueEvent) (q : KernelQueue) : Prop :=
  ∃ p : Pipe Kevent, Holds q p ∧ p.pushed = fetched es ∧
    p.taken.map Kevent.toKernelEvent = returned es ∧
    q.mEventList.take q.mEventCount.toNat = latest es

theorem delivers_step (h : Delivers es q) (hok : FetchOk q c) :
    Delivers (es ++ [event KernelQueue.step q c]) (q.step c).1 := by
  obtain ⟨p, hp, hpush, htake, hlatest⟩ := h
  rw [Delivers, fetched_concat, returned_concat, latest_concat]
  show ∃ p' : Pipe Kevent, Holds (q.step c).1 p' ∧
    p'.pushed = fetched es ++ (fetches (q.step c).2).flatMap (fun ret => ret.getD []) ∧
    p'.taken.map Kevent.toKernelEvent = returned es ++ returnedBy (q.step c).2 ∧
    _ = (fetches (q.step c).2).foldl (fun _ ret => ret.getD []) (latest es)
  by_cases hc : ∀ event ret, c ≠ .poll event ret
  · obtain ⟨hfetch, hret, hlist, hcount, hindex⟩ := step_of_not_poll hc
    rw [hfetch, hret]
    refine ⟨p, hp.congr hlist hcount hindex, ?_, ?_, ?_⟩
    · simpa using hpush
    · simpa using htake
    · show (q.step c).1.mEventList.take (q.step c).1.mEventCount.toNat = latest es
      rw [hlist, hcount]
      exact hlatest
  · simp only [ne_eq, not_forall, not_not] at hc
    obtain ⟨event, ret, rfl⟩ := hc
    rw [FetchOk] at hok
    rcases poll_cases q event ret with ⟨hempty, rfl, heq⟩ | ⟨batch, hempty, rfl, heq⟩ |
      ⟨hne, heq⟩ <;> simp only [KernelQueue.step, heq] at hok ⊢
    · refine ⟨p, hp.fail hempty, ?_, ?_, ?_⟩
      · simp [fetches, hpush]
      · simp [returnedBy, htake]
      · simp [fetches]
    · have hlen : batch.length ≤ MAX_KEVENT_SIZE := hok (some batch) (by simp [fetches])
      refine ⟨p.push batch, hp.fetch hempty hlen, ?_, ?_, ?_⟩
      · simp [fetches, Pipe.push, hpush]
      · simp [returnedBy, Pipe.push, htake]
      · simp [fetches]
    · -- the event that is returned is the first one in the pipe
      refine ⟨p.take 1, hp.next hne, ?_, ?_, ?_⟩
      · simp [fetches, Pipe.take, hpush]
      · show (p.taken ++ p.pending.take 1).map Kevent.toKernelEvent = _
        rw [hp.pending, hp.unread_eq_cons hne, List.map_append, htake]
        rfl
      · simpa [fetches] using hlatest

theorem delivers_init {alloc : Bool} {ret : int32}
    (hinit : (KernelQueue.new.init alloc ret).2 = SUCCESS) :
    Delivers [] (KernelQueue.new.init alloc ret).1 := by
  have halloc : alloc = true := by
    by_contra hno
    rw [Bool.not_eq_true] at hno
    simp [KernelQueue.init, hno] at hinit
  have hret : ret ≠ ERROR := by
    rintro rfl
    simp [KernelQueue.init, KernelQueue.createKqueue, halloc] at hinit
  have hstart : (KernelQueue.new.init alloc ret).1 =
      ⟨ret, List.replicate MAX_KEVENT_SIZE Kevent.zero, 0, 0, ⟨0, 5000000⟩⟩ := by
    simp [KernelQueue.init, KernelQueue.createKqueue, KernelQueue.new, KernelQueue.setTimeout,
      halloc, hret]
  rw [hstart]
  refine ⟨Pipe.empty, ⟨Int.le_refl 0, Int.le_refl 0, Int.natCast_nonneg _, ?_, ?_⟩, rfl, rfl, ?_⟩
  · exact List.length_replicate
  · rfl
  · rfl

/-! ### Every event is delivered exactly once and in order -/

/-- What holds after every call: the bounds, what the entries up to the count are, and
that the returned events followed by the unread entries are all batches. -/
def Delivered (es : List QueueEvent) (q : KernelQueue) : Prop :=
  0 ≤ q.mEventIndex ∧ q.mEventIndex ≤ q.mEventCount ∧ q.mEventCount ≤ 128 ∧
  q.mEventList.length = 128 ∧
  q.mEventList.take q.mEventCount.toNat = latest es ∧
  returned es ++ q.unread.map Kevent.toKernelEvent = (fetched es).map Kevent.toKernelEvent

/-- What a call reports.  A fetch happens only with nothing unread, and leaves nothing
unread if it fails; `Poll` returns `false` with exactly one fetch, which is answered by
the reply of the kernel to this call, and `true` without one; no other method fetches. -/
def Reported (q : KernelQueue) (c : QueueCall) : Prop :=
  (fetches (q.step c).2 ≠ [] → q.unread = []) ∧
  (none ∈ fetches (q.step c).2 → (q.step c).1.unread = [] ∧ returnedBy (q.step c).2 = []) ∧
  (∀ event ret, c = .poll event ret →
    (∃ b event', (q.step c).2.ret = .polled b event' ∧
      (b = false ↔ fetches (q.step c).2 = [ret]) ∧
      (b = false ↔ (fetches (q.step c).2).length = 1) ∧
      (b = true ↔ fetches (q.step c).2 = []))) ∧
  ((∀ event ret, c ≠ .poll event ret) → fetches (q.step c).2 = [])

theorem Holds.reported (h : Holds q p) (c : QueueCall) : Reported q c := by
  by_cases hc : ∀ event ret, c ≠ .poll event ret
  · obtain ⟨hfetch, -⟩ := step_of_not_poll hc
    rw [Reported, hfetch]
    exact ⟨fun hne => absurd rfl hne, by simp, fun event ret he => absurd he (hc event ret),
      fun _ => rfl⟩
  · simp only [ne_eq, not_forall, not_not] at hc
    obtain ⟨event, ret, rfl⟩ := hc
    have hpoll : ¬ ∀ event' ret', QueueCall.poll event ret ≠ .poll event' ret' :=
      fun hno => hno event ret rfl
    rcases poll_cases q event ret with ⟨hempty, rfl, heq⟩ | ⟨batch, hempty, rfl, heq⟩ |
      ⟨hne, heq⟩ <;> simp only [Reported, KernelQueue.step, heq]
    · have hnil := h.unread_eq_nil_iff.mpr hempty
      refine ⟨fun _ => hnil, fun _ => ⟨by simp [KernelQueue.unread], by simp [returnedBy]⟩, ?_,
        fun hno => absurd hno hpoll⟩
      rintro _ _ ⟨⟩
      exact ⟨false, event, rfl, by simp [fetches], by simp [fetches], by simp [fetches]⟩
    · have hnil := h.unread_eq_nil_iff.mpr hempty
      refine ⟨fun _ => hnil, by simp [fetches], ?_, fun hno => absurd hno hpoll⟩
      rintro _ _ ⟨⟩
      exact ⟨false, event, rfl, by simp [fetches], by simp [fetches], by simp [fetches]⟩
    · refine ⟨by simp [fetches], by simp [fetches], ?_, fun hno => absurd hno hpoll⟩
      rintro _ _ ⟨⟩
      exact ⟨true, _, rfl, by simp [fetches], by simp [fetches], by simp [fetches]⟩

theorem Delivers.delivered (h : Delivers es q) : Delivered es q := by
  obtain ⟨p, hp, hpush, htake, hlatest⟩ := h
  refine ⟨hp.nonneg, hp.index_le, hp.count_le, hp.length, hlatest, ?_⟩
  rw [← hpush, ← htake, ← hp.pending, ← List.map_append, p.conserve]

/-- **Every kernel event is delivered exactly once and in order**, over every run after
a successful `Init`. -/
theorem events_delivered_once {alloc : Bool} {ret : int32} {calls : List QueueCall}
    (hinit : (KernelQueue.new.init alloc ret).2 = SUCCESS)
    (hkernel : Along KernelQueue.step (KernelQueue.new.init alloc ret).1
      (fun _ q c => FetchOk q c) calls) :
    Always KernelQueue.step (KernelQueue.new.init alloc ret).1 Delivered calls ∧
    Along KernelQueue.step (KernelQueue.new.init alloc ret).1 (fun _ q c => Reported q c)
      calls := by
  have hrun : Always KernelQueue.step (KernelQueue.new.init alloc ret).1 Delivers calls :=
    always_of_step (delivers_init hinit) (fun es q c h hok => delivers_step h hok) hkernel
  refine ⟨fun pre hpre => (hrun pre hpre).delivered, ?_⟩
  intro pre c hpre
  obtain ⟨p, hp, -⟩ := hrun pre ((List.prefix_append _ _).trans hpre)
  exact hp.reported c

/-- A batch of two events, a change of the timeout between them, and a failed fetch. -/
theorem events_delivered_once_two :
    let calls : List QueueCall := [
      .poll ⟨0, 0, 0, 0, 0, 0⟩ (some [⟨4, -1, 1, 0, 10, 0⟩, ⟨5, -2, 1, 0, 512, 0⟩]),
      .poll ⟨0, 0, 0, 0, 0, 0⟩ none, .setTimeout 0, .poll ⟨0, 0, 0, 0, 0, 0⟩ none,
      .poll ⟨0, 0, 0, 0, 0, 0⟩ none]
    Always KernelQueue.step (KernelQueue.new.init true 5).1 Delivered calls ∧
      Along KernelQueue.step (KernelQueue.new.init true 5).1 (fun _ q c => Reported q c) calls :=
  events_delivered_once (by decide) (by decide)

end Gdf
