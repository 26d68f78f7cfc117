/-
The class `KernelEvent`, and the whole life of a `KernelQueue`: any calls of its methods
from the constructor to the end of the destructor, `Init` at any time among them.

* `events_kept_iff`: whatever is fetched comes out of `Poll` once and in order, exactly
  if no `Init` is called while entries are unread, since it clears them;
* `event_dispatched_iff`: every event that `Poll` returns identifies one descriptor and is
  of one type, and a call that succeeded watches this descriptor for this type, exactly if
  no `Poll` reads an entry that `Init` cleared;
* `kqueue_closed_iff`: every queue is closed once exactly if no `Init` but the last got
  one, since the destructor knows the last one only;
* `fetch_waits`: every fetch waits as long as the last `SetTimeout` says.
-/
import BsdGdf.KernelQueue
import BsdGdf.Ledger
import Mathlib.Data.List.GetD

namespace Gdf

open Runs Ledger

namespace KernelEvent

/-- `KernelEvent::KernelEvent()`. -/
def new : KernelEvent := ⟨0, 0, 0, 0, 0, 0⟩

/-- `IdentifyFD(fd)`; the cast to `uint64` keeps the sign. -/
def identifyFD (event : KernelEvent) (fd : int32) : Bool :=
  if event.mIdentifier = fd.toInt64.toUInt64 then true else false

/-- `IdentifySocket(socket)`. -/
def identifySocket (event : KernelEvent) (socket : int32) : Bool :=
  if event.mIdentifier = socket.toInt64.toUInt64 then true else false

/-- `IsReadType()`. -/
def isReadType (event : KernelEvent) : Bool := event.mFilter = EVFILT_READ

/-- `IsWriteType()`. -/
def isWriteType (event : KernelEvent) : Bool := event.mFilter = EVFILT_WRITE

end KernelEvent

/-- A call of a public method of the queue. -/
inductive QueueAct
  | init (alloc : Bool) (ret : int32)
  | call (c : QueueCall)
  deriving DecidableEq, Repr

namespace KernelQueue

/-- Perform it. -/
def live (q : KernelQueue) : QueueAct → KernelQueue × QueueReply
  | .init alloc ret =>
    let r := q.init alloc ret
    (r.1, ⟨.bool r.2, []⟩)
  | .call c => q.step c

end KernelQueue

/-- A step of a whole life. -/
abbrev QueueLifeEvent := Event KernelQueue QueueAct QueueReply

/-- All batches fetched in the life so far. -/
def lifeFetched (es : List QueueLifeEvent) : List Kevent :=
  es.flatMap fun e => (fetches e.output).flatMap fun ret => ret.getD []

/-- The events `Poll` has returned in the life so far. -/
def lifeReturned (es : List QueueLifeEvent) : List KernelEvent :=
  es.flatMap fun e => returnedBy e.output

/-- What a call registers with the queue `kq`: the identifier and the filter of every
change that succeeds. -/
def registers (kq : int32) (r : QueueReply) : List (UInt64 × Int16) :=
  r.calls.filterMap fun
    | .change kq' newEvent ret =>
      if kq' = kq ∧ ret ≠ ERROR then some (newEvent.ident, newEvent.filter) else none
    | .fetch _ _ _ => none

/-- Everything registered with `kq`. -/
def registered (kq : int32) (es : List QueueLifeEvent) : List (UInt64 × Int16) :=
  es.flatMap fun e => registers kq e.output

/-- What a call watches, if it returns `SUCCESS`. -/
def QueueAct.watches (a : QueueAct) (r : QueueReply) : List (int32 × Int16) :=
  match a with
  | .call (.addReadEvent fd _) => if r.ret = .bool SUCCESS then [(fd, EVFILT_READ)] else []
  | .call (.addWriteEvent fd _) => if r.ret = .bool SUCCESS then [(fd, EVFILT_WRITE)] else []
  | _ => []

/-- The descriptors the calls so far have set up to be watched, each with its filter. -/
def watched (es : List QueueLifeEvent) : List (int32 × Int16) :=
  es.flatMap fun e => e.input.watches e.output

/-- `kevent()` fills in at most what the list holds, and reports only what was
registered with the queue. -/
def KernelReports (es : List QueueLifeEvent) (q : KernelQueue) (a : QueueAct) : Prop :=
  ∀ ret ∈ fetches (q.live a).2, (ret.getD []).length ≤ q.mEventList.length ∧
    ∀ entry ∈ ret.getD [], (entry.ident, entry.filter) ∈ registered q.mKqueue es

instance (es : List QueueLifeEvent) (q : KernelQueue) (a : QueueAct) :
    Decidable (KernelReports es q a) :=
  inferInstanceAs (Decidable (∀ ret ∈ fetches (q.live a).2, _ ∧ _))

/-- `Init` is called only when all entries are read. -/
def InitsRead (q : KernelQueue) : QueueAct → Prop
  | .init _ _ => q.unread = []
  | .call _ => True

instance (q : KernelQueue) : ∀ a, Decidable (InitsRead q a)
  | .init _ _ => inferInstanceAs (Decidable (q.unread = []))
  | .call _ => inferInstanceAs (Decidable True)

/-- If `Poll` reads an entry, it is not one that `Init` cleared. -/
def ReadsFetched (q : KernelQueue) : QueueAct → Prop
  | .call (.poll _ _) => q.mEventCount ≠ q.mEventIndex →
    q.mEventList.getD q.mEventIndex.toNat Kevent.zero ≠ Kevent.zero
  | _ => True

instance (q : KernelQueue) : ∀ a, Decidable (ReadsFetched q a)
  | .call (.poll _ _) => inferInstanceAs (Decidable (_ → _))
  | .call (.addReadEvent _ _) => isTrue trivial
  | .call (.addWriteEvent _ _) => isTrue trivial
  | .call (.setTimeout _) => isTrue trivial
  | .init _ _ => isTrue trivial

variable {q : KernelQueue} {a : QueueAct} {es : List QueueLifeEvent}

@[simp] theorem lifeFetched_concat (e : QueueLifeEvent) : lifeFetched (es ++ [e]) =
    lifeFetched es ++ (fetches e.output).flatMap fun ret => ret.getD [] := by
  simp [lifeFetched]

@[simp] theorem lifeReturned_concat (e : QueueLifeEvent) :
    lifeReturned (es ++ [e]) = lifeReturned es ++ returnedBy e.output := by
  simp [lifeReturned]

theorem mem_registered_concat {kq : int32} {p : UInt64 × Int16} (e : QueueLifeEvent) :
    p ∈ registered kq (es ++ [e]) ↔ p ∈ registered kq es ∨ p ∈ registers kq e.output := by
  simp [registered]

theorem mem_watched_concat {p : int32 × Int16} (e : QueueLifeEvent) :
    p ∈ watched (es ++ [e]) ↔ p ∈ watched es ∨ p ∈ e.input.watches e.output := by
  simp [watched]

/-! ### What an event identifies -/

theorem KernelEvent.identifyFD_iff (event : KernelEvent) (fd : int32) :
    event.identifyFD fd = true ↔ event.mIdentifier = fd.toInt64.toUInt64 := by
  rw [KernelEvent.identifyFD]
  split <;> simp_all

/-- The two conversions of an `fd`, in `EV_SET` and in `IdentifyFD`, keep it apart from
the others. -/
theorem toUInt64_inj {fd fd' : int32} (h : fd.toInt64.toUInt64 = fd'.toInt64.toUInt64) :
    fd = fd' := by
  have hwide : fd.toInt64 = fd'.toInt64 := by
    cases hfd : fd.toInt64
    cases hfd' : fd'.toInt64
    rw [hfd, hfd'] at h
    exact congrArg Int64.ofUInt64 h
  have hint := congrArg Int64.toInt hwide
  rw [Int32.toInt_toInt64, Int32.toInt_toInt64] at hint
  exact Int32.toInt_inj.mp hint

/-- An entry is that of a watch: its identifier is the descriptor's, and its filter. -/
def OfWatch (ps : List (int32 × Int16)) (p : UInt64 × Int16) : Prop :=
  ∃ fd, p.1 = fd.toInt64.toUInt64 ∧ (fd, p.2) ∈ ps ∧
    (p.2 = EVFILT_READ ∨ p.2 = EVFILT_WRITE)

theorem OfWatch.mono {ps ps' : List (int32 × Int16)} {p : UInt64 × Int16}
    (h : OfWatch ps p) (hsub : ∀ w ∈ ps, w ∈ ps') : OfWatch ps' p := by
  obtain ⟨fd, hident, hmem, hfilter⟩ := h
  exact ⟨fd, hident, hsub _ hmem, hfilter⟩

theorem OfWatch.concat {p : UInt64 × Int16} (h : OfWatch (watched es) p) (e : QueueLifeEvent) :
    OfWatch (watched (es ++ [e])) p :=
  h.mono fun _ hw => (mem_watched_concat e).mpr (.inl hw)

/-- What a call registers is what it watches. -/
theorem registers_live {kq : int32} {p : UInt64 × Int16}
    (h : p ∈ registers kq (q.live a).2) : OfWatch (a.watches (q.live a).2) p := by
  have hadd : ∀ (filter : Int16) (fd ret : int32),
      p ∈ registers kq ⟨.bool (KernelQueue.addEvent filter q fd ret).1,
        (KernelQueue.addEvent filter q fd ret).2⟩ →
      ret ≠ ERROR ∧ p = (fd.toInt64.toUInt64, filter) := by
    intro filter fd ret hp
    by_cases hret : ret = ERROR
    · rw [KernelQueue.addEvent, if_pos hret] at hp
      simp [registers, hret] at hp
    · rw [KernelQueue.addEvent, if_neg hret] at hp
      simp only [registers, List.filterMap_cons, List.filterMap_nil] at hp
      split_ifs at hp with hkq
      · exact ⟨hret, List.mem_singleton.mp hp⟩
      · exact absurd hp List.not_mem_nil
  cases a with
  | init alloc ret => exact absurd h List.not_mem_nil
  | call c =>
    cases c with
    | poll event ret =>
      rcases poll_cases q event ret with ⟨-, -, heq⟩ | ⟨batch, -, -, heq⟩ | ⟨-, heq⟩ <;>
        simp [KernelQueue.live, KernelQueue.step, heq, registers] at h
    | addReadEvent fd ret =>
      obtain ⟨hret, rfl⟩ := hadd EVFILT_READ fd ret h
      refine ⟨fd, rfl, ?_, .inl rfl⟩
      simp [QueueAct.watches, KernelQueue.live, KernelQueue.step, KernelQueue.addReadEvent,
        KernelQueue.addEvent, hret]
    | addWriteEvent fd ret =>
      obtain ⟨hret, rfl⟩ := hadd EVFILT_WRITE fd ret h
      refine ⟨fd, rfl, ?_, .inr rfl⟩
      simp [QueueAct.watches, KernelQueue.live, KernelQueue.step, KernelQueue.addWriteEvent,
        KernelQueue.addEvent, hret]
    | setTimeout ms => exact absurd h List.not_mem_nil

theorem registered_step (h : ∀ kq, ∀ p ∈ registered kq es, OfWatch (watched es) p) :
    ∀ kq, ∀ p ∈ registered kq (es ++ [event KernelQueue.live q a]),
      OfWatch (watched (es ++ [event KernelQueue.live q a])) p := by
  intro kq p hp
  rcases (mem_registered_concat _).mp hp with hold | hnew
  · exact (h kq p hold).concat _
  · exact (registers_live hnew).mono fun w hw => (mem_watched_concat _).mpr (.inr hw)

/-- What `Poll` can do in the life of a queue. -/
theorem live_poll_cases (q : KernelQueue) (ev : KernelEvent) (ret : Option (List Kevent)) :
    (q.mEventCount = q.mEventIndex ∧ ret = none ∧
      q.live (.call (.poll ev ret)) = ({ q with mEventCount := 0, mEventIndex := 0 },
        ⟨.polled false ev, [.fetch q.mKqueue q.mTimeout none]⟩)) ∨
    (∃ batch, q.mEventCount = q.mEventIndex ∧ ret = some batch ∧
      q.live (.call (.poll ev ret)) =
        ({ q with
            mEventList := batch ++ q.mEventList.drop batch.length
            mEventCount := batch.length
            mEventIndex := 0 },
          ⟨.polled false ev, [.fetch q.mKqueue q.mTimeout (some batch)]⟩)) ∨
    (q.mEventCount ≠ q.mEventIndex ∧
      q.live (.call (.poll ev ret)) = ({ q with mEventIndex := q.mEventIndex + 1 },
        ⟨.polled true
          (q.mEventList.getD q.mEventIndex.toNat Kevent.zero).toKernelEvent, []⟩)) := by
  rcases poll_cases q ev ret with ⟨hempty, hret, heq⟩ | ⟨batch, hempty, hret, heq⟩ | ⟨hne, heq⟩
  · exact .inl ⟨hempty, hret, by simp only [KernelQueue.live, KernelQueue.step, heq]⟩
  · exact .inr (.inl ⟨batch, hempty, hret, by
      simp only [KernelQueue.live, KernelQueue.step, heq]⟩)
  · exact .inr (.inr ⟨hne, by simp only [KernelQueue.live, KernelQueue.step, heq]⟩)

/-! ### Entries that are not read yet -/

/-- Where the count and the index stand at any time in the life, before `Init` too. -/
structure Bounds (q : KernelQueue) : Prop where
  nonneg : 0 ≤ q.mEventIndex
  index_le : q.mEventIndex ≤ q.mEventCount
  count_le : q.mEventIndex < q.mEventCount → q.mEventCount ≤ q.mEventList.length

theorem Bounds.unread_eq_nil_iff (h : Bounds q) :
    q.unread = [] ↔ q.mEventCount = q.mEventIndex := by
  have hnonneg := h.nonneg
  have hindex := h.index_le
  have hcount := h.count_le
  rw [KernelQueue.unread, List.drop_eq_nil_iff, List.length_take]
  omega

/-- The entry `Poll` reads is the first unread one. -/
theorem Bounds.unread_eq_cons (h : Bounds q) (hne : q.mEventCount ≠ q.mEventIndex) :
    q.unread = q.mEventList.getD q.mEventIndex.toNat Kevent.zero ::
      { q with mEventIndex := q.mEventIndex + 1 }.unread := by
  have hnonneg := h.nonneg
  have hindex := h.index_le
  have hcount := h.count_le (by omega)
  have hlt : q.mEventIndex.toNat < q.mEventList.length := by omega
  have hread : q.mEventIndex.toNat < (q.mEventList.take q.mEventCount.toNat).length := by
    rw [List.length_take]
    omega
  have hnext : (q.mEventIndex + 1).toNat = q.mEventIndex.toNat + 1 := by omega
  have hfirst : q.mEventList.getD q.mEventIndex.toNat Kevent.zero =
      q.mEventList[q.mEventIndex.toNat] := by
    rw [List.getD_eq_getElem?_getD, List.getElem?_eq_getElem hlt]
    rfl
  show (q.mEventList.take q.mEventCount.toNat).drop q.mEventIndex.toNat = _ ::
    (q.mEventList.take q.mEventCount.toNat).drop (q.mEventIndex + 1).toNat
  rw [List.drop_eq_getElem_cons hread, List.getElem_take, hfirst, hnext]

theorem unread_of_eq (heq : q.mEventCount = q.mEventIndex) : q.unread = [] := by
  rw [KernelQueue.unread, List.drop_eq_nil_iff, List.length_take, heq]
  exact Nat.min_le_left _ _

/-- `Init` clears the list, and asks for a queue if it got the memory. -/
theorem live_init (alloc : Bool) (ret : int32) :
    (q.live (.init alloc ret)).1 =
      { q with
        mKqueue := if alloc then ret else q.mKqueue
        mEventList := if alloc then List.replicate MAX_KEVENT_SIZE Kevent.zero else [] } ∧
    (q.live (.init alloc ret)).2.calls = [] := by
  refine ⟨?_, rfl⟩
  cases alloc with
  | false => rfl
  | true =>
    simp only [KernelQueue.live, KernelQueue.init, KernelQueue.createKqueue]
    by_cases hret : ret = ERROR <;> simp [hret]

theorem unread_init {alloc : Bool} {ret : int32} {entry : Kevent}
    (h : entry ∈ (q.live (.init alloc ret)).1.unread) : entry = Kevent.zero := by
  rw [(live_init alloc ret).1, KernelQueue.unread] at h
  have hmem := List.mem_of_mem_take (List.mem_of_mem_drop h)
  cases alloc with
  | false => exact absurd hmem List.not_mem_nil
  | true => exact List.eq_of_mem_replicate hmem

/-- The unread entries are of watches, and what was fetched comes out in order. -/
structure Fetched (es : List QueueLifeEvent) (q : KernelQueue) : Prop where
  bounds : Bounds q
  registered : ∀ kq, ∀ p ∈ registered kq es, OfWatch (watched es) p
  unread : ∀ entry ∈ q.unread, OfWatch (watched es) (entry.ident, entry.filter)
  conserve : lifeReturned es ++ q.unread.map Kevent.toKernelEvent =
    (lifeFetched es).map Kevent.toKernelEvent

theorem fetched_new : Fetched [] KernelQueue.new where
  bounds := ⟨Int.le_refl 0, Int.le_refl 0, fun h => absurd h (Int.lt_irrefl 0)⟩
  registered _ _ h := absurd h List.not_mem_nil
  unread _ h := absurd h List.not_mem_nil
  conserve := rfl

/-- The entries `out` come out at the front, and a batch goes in at the back. -/
theorem Fetched.next {q' : KernelQueue} (h : Fetched es q) (batch out : List Kevent)
    (hbounds : Bounds q') (hstate : (q.live a).1 = q')
    (hfetch : (fetches (q.live a).2).flatMap (fun ret => ret.getD []) = batch)
    (hret : returnedBy (q.live a).2 = out.map Kevent.toKernelEvent)
    (hbatch : ∀ entry ∈ batch, OfWatch (watched es) (entry.ident, entry.filter))
    (hunread : q.unread ++ batch = out ++ q'.unread) :
    Fetched (es ++ [event KernelQueue.live q a]) (q.live a).1 := by
  have hall : ∀ entry ∈ out ++ q'.unread, OfWatch (watched es) (entry.ident, entry.filter) := by
    rw [← hunread]
    intro entry hentry
    rcases List.mem_append.mp hentry with hold | hnew
    · exact h.unread entry hold
    · exact hbatch entry hnew
  rw [hstate]
  refine ⟨hbounds, registered_step h.registered, fun entry hentry => ?_, ?_⟩
  · exact (hall entry (List.mem_append_right _ hentry)).concat _
  · rw [lifeReturned_concat, lifeFetched_concat, event, hret, hfetch, List.append_assoc,
      ← List.map_append, ← hunread, List.map_append, List.map_append, ← h.conserve,
      List.append_assoc]

/-- **One call** keeps all this, unless it is an `Init` while entries are unread. -/
theorem fetched_step (h : Fetched es q) (hok : KernelReports es q a) (hread : InitsRead q a) :
    Fetched (es ++ [event KernelQueue.live q a]) (q.live a).1 := by
  have hb := h.bounds
  cases a with
  | init alloc ret =>
    have hnil : q.unread = [] := hread
    have heq := hb.unread_eq_nil_iff.mp hnil
    obtain ⟨hstate, hcalls⟩ := live_init (q := q) alloc ret
    refine h.next [] [] ⟨?_, ?_, ?_⟩ hstate ?_ rfl ?_ ?_
    · exact hb.nonneg
    · exact hb.index_le
    · intro hlt
      exact absurd heq (Int.ne_of_gt hlt)
    · rw [fetches, hcalls]
      rfl
    · exact fun _ hentry => absurd hentry List.not_mem_nil
    · rw [hnil]
      refine (unread_of_eq ?_).symm
      exact heq
  | call c =>
    by_cases hc : ∀ event ret, c ≠ .poll event ret
    · obtain ⟨hfetch, hret, hlist, hcount, hindex⟩ := step_of_not_poll (q := q) hc
      refine h.next [] [] ⟨?_, ?_, ?_⟩ rfl ?_ hret ?_ ?_
      · exact hindex ▸ hb.nonneg
      · exact hindex ▸ hcount ▸ hb.index_le
      · exact hindex ▸ hcount ▸ hlist ▸ hb.count_le
      · show (fetches (q.step c).2).flatMap _ = []
        rw [hfetch]
        rfl
      · exact fun _ hentry => absurd hentry List.not_mem_nil
      · show q.unread ++ [] = (q.step c).1.unread
        rw [List.append_nil, KernelQueue.unread, KernelQueue.unread, hlist, hcount, hindex]
    · simp only [ne_eq, not_forall, not_not] at hc
      obtain ⟨ev, ret, rfl⟩ := hc
      rcases live_poll_cases q ev ret with ⟨hempty, rfl, hlive⟩ | ⟨batch, hempty, rfl, hlive⟩ |
        ⟨hne, hlive⟩
      · -- the fetch fails, with nothing unread before and after
        refine h.next [] [] ⟨?_, ?_, ?_⟩ (congrArg Prod.fst hlive) ?_ ?_ ?_ ?_
        · exact Int.le_refl 0
        · exact Int.le_refl 0
        · exact fun hlt => absurd hlt (Int.lt_irrefl 0)
        · rw [hlive]
          rfl
        · rw [hlive]
          rfl
        · exact fun _ hentry => absurd hentry List.not_mem_nil
        · rw [hb.unread_eq_nil_iff.mpr hempty]
          exact (unread_of_eq rfl).symm
      · -- the whole batch is unread
        rw [KernelReports, hlive] at hok
        obtain ⟨hlen, hentries⟩ := hok (some batch) (List.mem_singleton_self _)
        refine h.next batch [] ⟨?_, ?_, ?_⟩ (congrArg Prod.fst hlive)
          ?_ ?_ ?_ ?_
        · exact Int.le_refl 0
        · exact Int.natCast_nonneg _
        · intro _
          show (batch.length : ℤ) ≤ (batch ++ q.mEventList.drop batch.length).length
          rw [List.length_append]
          omega
        · rw [hlive]
          exact List.append_nil batch
        · rw [hlive]
          rfl
        · exact fun entry hentry => h.registered q.mKqueue _ (hentries entry hentry)
        · rw [hb.unread_eq_nil_iff.mpr hempty]
          simp [KernelQueue.unread]
      · -- the first unread entry comes out
        have hnonneg := hb.nonneg
        have hindex := hb.index_le
        refine h.next [] [q.mEventList.getD q.mEventIndex.toNat Kevent.zero]
          ⟨?_, ?_, ?_⟩ (congrArg Prod.fst hlive) ?_ ?_ ?_ ?_
        · show 0 ≤ q.mEventIndex + 1
          omega
        · show q.mEventIndex + 1 ≤ q.mEventCount
          omega
        · exact fun _ => hb.count_le (by omega)
        · rw [hlive]
          rfl
        · rw [hlive]
          rfl
        · exact fun _ hentry => absurd hentry List.not_mem_nil
        · rw [List.append_nil]
          exact hb.unread_eq_cons hne

/-! ### Delivered once, and to the right descriptor -/

/-- An `Init` while entries are unread loses them. -/
theorem lost_of_init {alloc : Bool} {ret : int32} (h : Fetched es q) (hne : q.unread ≠ []) :
    lifeReturned (es ++ [event KernelQueue.live q (.init alloc ret)]) ++
        (q.live (.init alloc ret)).1.unread.map Kevent.toKernelEvent ≠
      (lifeFetched (es ++ [event KernelQueue.live q (.init alloc ret)])).map
        Kevent.toKernelEvent := by
  have hfetch : fetches (q.live (.init alloc ret)).2 = [] := by
    rw [fetches, (live_init alloc ret).2]
    rfl
  obtain ⟨entry, rest, hunread⟩ := List.exists_cons_of_ne_nil hne
  intro heq
  have hconserve := h.conserve
  rw [lifeReturned_concat, lifeFetched_concat, event, hfetch] at heq
  simp only [List.flatMap_nil, List.append_nil] at heq
  have hret : returnedBy (q.live (.init alloc ret)).2 = [] := rfl
  rw [hret, List.append_nil, ← hconserve] at heq
  have hsame := List.append_cancel_left heq
  -- the first unread entry is of a watch, so its filter is not that of a cleared one
  obtain ⟨-, -, -, hfilter⟩ := h.unread entry (hunread ▸ List.mem_cons_self)
  have hmem : entry.toKernelEvent ∈
      (q.live (.init alloc ret)).1.unread.map Kevent.toKernelEvent := by
    rw [hsame, hunread]
    exact List.mem_cons_self
  obtain ⟨cleared, hcleared, hevent⟩ := List.mem_map.mp hmem
  rw [unread_init hcleared] at hevent
  have hzero : (0 : Int16) = entry.filter := congrArg KernelEvent.mFilter hevent
  have hno : ¬ ((0 : Int16) = EVFILT_READ ∨ (0 : Int16) = EVFILT_WRITE) := by decide
  rw [hzero] at hno
  exact hno hfilter

/-- **No event is lost or delivered twice**, over a whole life: the events that `Poll`
returned and the entries that are unread are all that was fetched, at any time, exactly if
no `Init` is called while entries are unread. -/
theorem events_kept_iff {acts : List QueueAct}
    (hkernel : Along KernelQueue.live KernelQueue.new KernelReports acts) :
    Always KernelQueue.live KernelQueue.new (fun es q =>
        lifeReturned es ++ q.unread.map Kevent.toKernelEvent =
          (lifeFetched es).map Kevent.toKernelEvent) acts ↔
      Along KernelQueue.live KernelQueue.new (fun _ q a => InitsRead q a) acts := by
  refine always_iff_along (I := Fetched) fetched_new fetched_new.conserve ?_ ?_ hkernel
  · intro es q a h hok hread
    exact ⟨fetched_step h hok hread, (fetched_step h hok hread).conserve⟩
  · intro es q a h _ hlost
    cases a with
    | init alloc ret => exact lost_of_init h hlost
    | call c => exact absurd trivial hlost

set_option maxRecDepth 4000 in
/-- `Init`, a watch on a descriptor, two events, and an `Init` after one of them. -/
theorem events_kept_iff_again :
    Always KernelQueue.live KernelQueue.new (fun es q =>
        lifeReturned es ++ q.unread.map Kevent.toKernelEvent =
          (lifeFetched es).map Kevent.toKernelEvent)
      [.init true 5, .call (.addReadEvent 4 0), .call (.poll .new (some
        [⟨4, -1, 1, 0, 10, 0⟩, ⟨4, -1, 1, 0, 20, 0⟩])), .call (.poll .new none),
        .init true 6] ↔
    Along KernelQueue.live KernelQueue.new (fun _ q a => InitsRead q a)
      [.init true 5, .call (.addReadEvent 4 0), .call (.poll .new (some
        [⟨4, -1, 1, 0, 10, 0⟩, ⟨4, -1, 1, 0, 20, 0⟩])), .call (.poll .new none),
        .init true 6] :=
  events_kept_iff (by decide)

/-- The event is of one type and one descriptor, which is watched for this type. -/
def Dispatched (es : List QueueLifeEvent) (event : KernelEvent) : Prop :=
  ∃ fd, (∀ fd', event.identifyFD fd' = true ↔ fd' = fd) ∧
    (∀ fd', event.identifySocket fd' = true ↔ fd' = fd) ∧
    ((event.isReadType = true ∧ event.isWriteType = false ∧ (fd, EVFILT_READ) ∈ watched es) ∨
      (event.isReadType = false ∧ event.isWriteType = true ∧ (fd, EVFILT_WRITE) ∈ watched es))

theorem OfWatch.dispatched {event : KernelEvent}
    (h : OfWatch (watched es) (event.mIdentifier, event.mFilter)) : Dispatched es event := by
  obtain ⟨fd, hident, hmem, hfilter⟩ := h
  have hfd : ∀ fd', event.identifyFD fd' = true ↔ fd' = fd := by
    intro fd'
    rw [event.identifyFD_iff]
    constructor
    · exact fun hident' => toUInt64_inj (hident'.symm.trans hident)
    · rintro rfl
      exact hident
  refine ⟨fd, hfd, hfd, ?_⟩
  rcases hfilter with hread | hwrite
  · have hmem' : (fd, EVFILT_READ) ∈ watched es := hread ▸ hmem
    simp only at hread
    left
    refine ⟨?_, ?_, hmem'⟩
    · rw [KernelEvent.isReadType, hread, decide_eq_true_iff]
    · rw [KernelEvent.isWriteType, hread]
      decide
  · have hmem' : (fd, EVFILT_WRITE) ∈ watched es := hwrite ▸ hmem
    simp only at hwrite
    right
    refine ⟨?_, ?_, hmem'⟩
    · rw [KernelEvent.isReadType, hwrite]
      decide
    · rw [KernelEvent.isWriteType, hwrite, decide_eq_true_iff]

/-- Every entry of the list is cleared or of a watch, and every event returned is of one. -/
structure Listed (es : List QueueLifeEvent) (q : KernelQueue) : Prop where
  registered : ∀ kq, ∀ p ∈ registered kq es, OfWatch (watched es) p
  entries : ∀ entry ∈ q.mEventList,
    entry = Kevent.zero ∨ OfWatch (watched es) (entry.ident, entry.filter)
  returned : ∀ event ∈ lifeReturned es, OfWatch (watched es) (event.mIdentifier, event.mFilter)

theorem listed_new : Listed [] KernelQueue.new where
  registered _ _ h := absurd h List.not_mem_nil
  entries _ h := absurd h List.not_mem_nil
  returned _ h := absurd h List.not_mem_nil

/-- Entries are overwritten by others of this kind, and one of a watch comes out. -/
theorem Listed.next (h : Listed es q)
    (hentries : ∀ entry ∈ (q.live a).1.mEventList,
      entry = Kevent.zero ∨ OfWatch (watched es) (entry.ident, entry.filter))
    (hreturned : ∀ event ∈ returnedBy (q.live a).2,
      OfWatch (watched es) (event.mIdentifier, event.mFilter)) :
    Listed (es ++ [event KernelQueue.live q a]) (q.live a).1 := by
  refine ⟨registered_step h.registered, fun entry hentry => ?_, fun ev hev => ?_⟩
  · exact (hentries entry hentry).imp_right fun hof => hof.concat _
  · rw [lifeReturned_concat] at hev
    rcases List.mem_append.mp hev with hold | hnew
    · exact (h.returned ev hold).concat _
    · exact (hreturned ev hnew).concat _

/-- **One call** keeps this, unless it reads a cleared entry. -/
theorem listed_step (h : Listed es q) (hok : KernelReports es q a) (hread : ReadsFetched q a) :
    Listed (es ++ [event KernelQueue.live q a]) (q.live a).1 := by
  cases a with
  | init alloc ret =>
    refine h.next (fun entry hentry => .inl ?_) fun _ hev => absurd hev List.not_mem_nil
    rw [(live_init alloc ret).1] at hentry
    cases alloc with
    | false => exact absurd hentry List.not_mem_nil
    | true => exact List.eq_of_mem_replicate hentry
  | call c =>
    by_cases hc : ∀ event ret, c ≠ .poll event ret
    · obtain ⟨-, hret, hlist, -, -⟩ := step_of_not_poll (q := q) hc
      refine h.next (fun entry hentry => ?_) fun ev hev => ?_
      · exact h.entries entry (hlist ▸ hentry)
      · exact absurd (hret ▸ hev) List.not_mem_nil
    simp only [ne_eq, not_forall, not_not] at hc
    obtain ⟨ev, ret, rfl⟩ := hc
    rcases live_poll_cases q ev ret with ⟨-, -, hlive⟩ | ⟨batch, -, rfl, hlive⟩ | ⟨hne, hlive⟩
    · refine h.next ?_ ?_ <;> rw [hlive]
      · exact h.entries
      · exact fun _ hev => absurd hev List.not_mem_nil
    · -- the entries of the batch are those of watches
      rw [KernelReports, hlive] at hok
      obtain ⟨-, hbatch⟩ := hok (some batch) (List.mem_singleton_self _)
      refine h.next ?_ ?_ <;> rw [hlive]
      · intro entry hentry
        rcases List.mem_append.mp hentry with hnew | hold
        · exact .inr (h.registered q.mKqueue _ (hbatch entry hnew))
        · exact h.entries entry (List.mem_of_mem_drop hold)
      · exact fun _ hev => absurd hev List.not_mem_nil
    · -- the entry that is read is not cleared
      have hfetched := hread hne
      have hmem : q.mEventList.getD q.mEventIndex.toNat Kevent.zero ∈ q.mEventList := by
        rcases Nat.lt_or_ge q.mEventIndex.toNat q.mEventList.length with hlt | hge
        · rw [List.getD_eq_getElem _ _ hlt]
          exact List.getElem_mem hlt
        · exact absurd (List.getD_eq_default _ _ hge) hfetched
      refine h.next ?_ ?_ <;> rw [hlive]
      · exact h.entries
      · intro event hevent
        obtain rfl := List.mem_singleton.mp hevent
        exact (h.entries _ hmem).resolve_left hfetched

theorem not_dispatched_zero : ¬ Dispatched es Kevent.zero.toKernelEvent := by
  have hread : Kevent.zero.toKernelEvent.isReadType = false := by decide
  have hwrite : Kevent.zero.toKernelEvent.isWriteType = false := by decide
  rintro ⟨fd, -, -, ⟨h, -⟩ | ⟨-, h, -⟩⟩
  · exact Bool.false_ne_true (hread.symm.trans h)
  · exact Bool.false_ne_true (hwrite.symm.trans h)

/-- **When every event finds its descriptor.**  Over a whole life, every event that `Poll`
returned makes `IdentifyFD` and `IdentifySocket` true for one descriptor only and one of
`IsReadType` and `IsWriteType`, and an earlier call that succeeded watches the descriptor
for that, exactly if no `Poll` reads an entry that `Init` cleared. -/
theorem event_dispatched_iff {acts : List QueueAct}
    (hkernel : Along KernelQueue.live KernelQueue.new KernelReports acts) :
    Always KernelQueue.live KernelQueue.new
        (fun es _ => ∀ event ∈ lifeReturned es, Dispatched es event) acts ↔
      Along KernelQueue.live KernelQueue.new (fun _ q a => ReadsFetched q a) acts := by
  refine always_iff_along (I := Listed) listed_new (fun _ h => absurd h List.not_mem_nil) ?_ ?_
    hkernel
  · intro es q a h hok hread
    have hnext := listed_step h hok hread
    exact ⟨hnext, fun ev hev => (hnext.returned ev hev).dispatched⟩
  · intro es q a _ _ hcleared hgood
    rcases a with _ | ⟨ev, ret⟩ | _ | _ | _
    case call.poll =>
      obtain ⟨hne, hzero⟩ := Classical.not_imp.mp hcleared
      rcases live_poll_cases q ev ret with ⟨heq, -⟩ | ⟨-, heq, -⟩ | ⟨-, hlive⟩
      · exact hne heq
      · exact hne heq
      · refine not_dispatched_zero (hgood Kevent.zero.toKernelEvent ?_)
        rw [lifeReturned_concat]
        refine List.mem_append_right _ ?_
        rw [event, hlive, not_not.mp hzero]
        exact List.mem_singleton_self _
    all_goals exact hcleared trivial

set_option maxRecDepth 4000 in
/-- A watch for reading, one for writing, and an event of each; the second is read after
another `Init`, when it is cleared. -/
theorem event_dispatched_iff_both :
    let acts : List QueueAct := [.init true 5, .call (.addReadEvent 4 0),
      .call (.addWriteEvent 4 0), .call (.poll .new (some
        [⟨4, -1, 1, 0, 10, 0⟩, ⟨4, -2, 1, 0, 512, 0⟩])), .call (.poll .new none), .init true 6,
      .call (.poll .new none)]
    Always KernelQueue.live KernelQueue.new
        (fun es _ => ∀ event ∈ lifeReturned es, Dispatched es event) acts ↔
      Along KernelQueue.live KernelQueue.new (fun _ q a => ReadsFetched q a) acts :=
  event_dispatched_iff (by decide)

/-! ### The queue itself -/

/-- What an `Init` call gets from `kqueue()`, if it comes to that. -/
def QueueAct.acquires : QueueAct → List (Option int32)
  | .init true ret => [if ret = ERROR then none else some ret]
  | _ => []

/-- What `kqueue()` returned in the `Init` calls, `none` for an error. -/
def kqueues (acts : List QueueAct) : List (Option int32) := acts.flatMap QueueAct.acquires

/-- `KernelQueue::~KernelQueue()`; `close(ERROR)` closes nothing. -/
def KernelQueue.destroy (q : KernelQueue) : List (Entry int32) :=
  if q.mKqueue = ERROR then [] else [.closed q.mKqueue]

/-- The queues opened and closed in the life of an object, its destructor included. -/
def kqueueLedger (acts : List QueueAct) : List (Entry int32) :=
  openings (kqueues acts) ++ (final KernelQueue.live KernelQueue.new acts).destroy

/-- The other methods leave the queue, and only `SetTimeout` changes the timeout. -/
theorem step_keeps (q : KernelQueue) (c : QueueCall) :
    (q.step c).1.mKqueue = q.mKqueue ∧
      ((∀ ms, c ≠ .setTimeout ms) → (q.step c).1.mTimeout = q.mTimeout) := by
  cases c with
  | poll event ret =>
    rcases poll_cases q event ret with ⟨-, -, heq⟩ | ⟨batch, -, -, heq⟩ | ⟨-, heq⟩ <;>
      simp [KernelQueue.step, heq]
  | addReadEvent fd ret => exact ⟨rfl, fun _ => rfl⟩
  | addWriteEvent fd ret => exact ⟨rfl, fun _ => rfl⟩
  | setTimeout ms => exact ⟨rfl, fun h => absurd rfl (h ms)⟩

/-- `mKqueue` is the slot of the queues. -/
theorem release_slot_kqueues (acts : List QueueAct) :
    (final KernelQueue.live KernelQueue.new acts).mKqueue = (slot (kqueues acts)).getD ERROR ∧
      slot (kqueues acts) ≠ some ERROR := by
  induction acts using List.reverseRecOn with
  | nil => exact ⟨rfl, by simp [kqueues, slot]⟩
  | append_singleton acts a ih =>
    have hkqueues : kqueues (acts ++ [a]) = kqueues acts ++ a.acquires := by simp [kqueues]
    rw [final_concat, hkqueues]
    cases a with
    | call c =>
      show ((KernelQueue.step _ c).1.mKqueue = (slot (kqueues acts ++ [])).getD ERROR) ∧ _
      rw [(step_keeps _ c).1]
      simpa [QueueAct.acquires] using ih
    | init alloc ret =>
      rw [(live_init alloc ret).1]
      cases alloc with
      | false => simpa [QueueAct.acquires] using ih
      | true =>
        by_cases hret : ret = ERROR <;> simp [QueueAct.acquires, slot, hret]

/-- **The queue is closed once**: over a whole life, every descriptor from `kqueue()` is
closed exactly once and nothing else is closed, exactly if no call of `kqueue()` but the
last one succeeded.  The kernel hands out descriptors that are not open. -/
theorem kqueue_closed_iff {acts : List QueueAct}
    (hfresh : Fresh (fun _ => false) (openings (kqueues acts))) :
    (ClosedOnce (kqueueLedger acts) ∧ Owned (fun _ => false) (kqueueLedger acts)) ↔
      ∀ o ∈ (kqueues acts).dropLast, o = none := by
  obtain ⟨hslot, herror⟩ := release_slot_kqueues acts
  have hdestroy : (final KernelQueue.live KernelQueue.new acts).destroy =
      release (slot (kqueues acts)) := by
    rw [KernelQueue.destroy, hslot]
    cases hk : slot (kqueues acts) with
    | none => rfl
    | some k =>
      have hne : k ≠ ERROR := by
        rintro rfl
        exact herror hk
      exact if_neg hne
  rw [kqueueLedger, hdestroy]
  exact closedOnce_slot_iff hfresh

/-- The first `Init` gets no queue, and the second one does. -/
theorem kqueue_closed_iff_retry :
    (ClosedOnce (kqueueLedger [.init true ERROR, .init false 0, .init true 5]) ∧
      Owned (fun _ => false) (kqueueLedger [.init true ERROR, .init false 0, .init true 5])) ↔
    ∀ o ∈ (kqueues [.init true ERROR, .init false 0, .init true 5]).dropLast, o = none :=
  kqueue_closed_iff (by show Fresh (fun _ => false) [.opened 5]; simp [Fresh])

/-! ### How long a fetch waits -/

/-- The milliseconds of the last `SetTimeout`; the constructor sets 5. -/
def lastTimeout (es : List QueueLifeEvent) : ℤ :=
  es.foldl (fun ms e => match e.input with
    | .call (.setTimeout ms') => ms'
    | _ => ms) 5

/-- What `kevent()` takes for a timeout. -/
def Timespec.Valid (t : Timespec) : Prop :=
  0 ≤ t.tv_sec ∧ 0 ≤ t.tv_nsec ∧ t.tv_nsec < 1000000000

/-- The fetches of a call, with their timeouts. -/
def waits (r : QueueReply) : List Timespec :=
  r.calls.filterMap fun
    | .fetch _ timeout _ => some timeout
    | .change _ _ _ => none

theorem setTimeout_valid (q : KernelQueue) (ms : ℤ) :
    (q.setTimeout ms).mTimeout.tv_sec * 1000000000 + (q.setTimeout ms).mTimeout.tv_nsec =
        ms * 1000000 ∧
      ((q.setTimeout ms).mTimeout.Valid ↔ 0 ≤ ms) := by
  have hsplit := Int.mul_tdiv_add_tmod ms 1000
  have hlt := Int.tmod_lt_of_pos ms (show (0 : ℤ) < 1000 by omega)
  show ms.tdiv 1000 * 1000000000 + ms.tmod 1000 * 1000 * 1000 = _ ∧
    (0 ≤ ms.tdiv 1000 ∧ 0 ≤ ms.tmod 1000 * 1000 * 1000 ∧
      ms.tmod 1000 * 1000 * 1000 < 1000000000 ↔ _)
  refine ⟨by omega, ?_⟩
  constructor
  · rintro ⟨hsec, hnsec, -⟩
    omega
  · intro hms
    have hsec := Int.tdiv_nonneg hms (show (0 : ℤ) ≤ 1000 by omega)
    have hmod := Int.tmod_nonneg 1000 hms
    omega

theorem mTimeout_step (h : q.mTimeout = (KernelQueue.new.setTimeout (lastTimeout es)).mTimeout) :
    (q.live a).1.mTimeout = (KernelQueue.new.setTimeout
      (lastTimeout (es ++ [event KernelQueue.live q a]))).mTimeout := by
  rw [lastTimeout, List.foldl_append]
  cases a with
  | init alloc ret =>
    rw [(live_init alloc ret).1]
    exact h
  | call c =>
    cases c with
    | setTimeout ms => rfl
    | poll ev ret => exact ((step_keeps q (.poll ev ret)).2 fun ms => by simp).trans h
    | addReadEvent fd ret => exact h
    | addWriteEvent fd ret => exact h

/-- The fetches of a call wait for the timeout that is set. -/
theorem waits_live {t : Timespec} (h : t ∈ waits (q.live a).2) : t = q.mTimeout := by
  have hadd : ∀ (filter : Int16) (fd ret : int32),
      waits ⟨.bool (KernelQueue.addEvent filter q fd ret).1,
        (KernelQueue.addEvent filter q fd ret).2⟩ = [] := by
    intro filter fd ret
    rw [KernelQueue.addEvent]
    split_ifs <;> rfl
  cases a with
  | init alloc ret => exact absurd h List.not_mem_nil
  | call c =>
    cases c with
    | poll ev ret =>
      rcases poll_cases q ev ret with ⟨-, -, heq⟩ | ⟨batch, -, -, heq⟩ | ⟨-, heq⟩ <;>
        simp only [KernelQueue.live, KernelQueue.step, heq] at h
      · exact List.mem_singleton.mp h
      · exact List.mem_singleton.mp h
      · exact absurd h List.not_mem_nil
    | addReadEvent fd ret => exact absurd ((hadd EVFILT_READ fd ret) ▸ h) List.not_mem_nil
    | addWriteEvent fd ret => exact absurd ((hadd EVFILT_WRITE fd ret) ▸ h) List.not_mem_nil
    | setTimeout ms => exact absurd h List.not_mem_nil

/-- **Every fetch waits as long as it was told**: whatever the calls, the seconds and the
nanoseconds it passes are the milliseconds of the last `SetTimeout`, and they are a
timeout that `kevent()` takes exactly if these are not negative. -/
theorem fetch_waits (acts : List QueueAct) :
    Along KernelQueue.live KernelQueue.new (fun es q a => ∀ t ∈ waits (q.live a).2,
      t.tv_sec * 1000000000 + t.tv_nsec = lastTimeout es * 1000000 ∧
        (t.Valid ↔ 0 ≤ lastTimeout es)) acts := by
  have hrun : Always KernelQueue.live KernelQueue.new (fun es q =>
      q.mTimeout = (KernelQueue.new.setTimeout (lastTimeout es)).mTimeout) acts :=
    always_of_step (P := fun _ _ _ => True) rfl (fun _ _ _ h _ => mTimeout_step h)
      (Along.of_forall fun _ _ _ _ => trivial)
  intro pre a hpre t ht
  rw [waits_live ht, hrun pre ((List.prefix_append _ _).trans hpre)]
  exact setTimeout_valid _ _

end Gdf
