/-
What the content buffer of a `DisplayBuffer` holds.

A push appends one entry and removes at most one, so the buffer always holds the
latest entries in push order (`contents_suffix_run`), but how many of them depends on
what it held before.  A capacity below that number is not enforced: every push then
keeps the length as it is (`length_pushContent`).

* `contentBuffer_bounded_iff` — along every run of pushes, clears and changes of the
  capacity, each push leaves at most the capacity exactly if each found at most that;
* `contents_eq_rtake` — the case in which the capacity does not change: the buffer
  holds the last entries pushed, as many as there is room for.
-/
import BsdGdf.DisplayBuffer
import BsdGdf.Runs
import Mathlib.Data.List.DropRight
import Mathlib.Data.Nat.Basic

namespace Gdf

open Runs

/-! ### The end of a list -/

section Rtake

variable {α : Type*}

theorem rtake_suffix (l : List α) (n : ℕ) : l.rtake n <:+ l := List.drop_suffix _ _

theorem length_rtake (l : List α) (n : ℕ) : (l.rtake n).length = min n l.length := by
  rw [List.rtake.eq_1, List.length_drop]
  omega

theorem rtake_of_length_le {l : List α} {n : ℕ} (h : l.length ≤ n) : l.rtake n = l := by
  rw [List.rtake.eq_1, Nat.sub_eq_zero_of_le h, List.drop_zero]

/-- The end of the end of a list. -/
theorem rtake_rtake (l : List α) (m n : ℕ) : (l.rtake m).rtake n = l.rtake (min n m) := by
  simp only [List.rtake.eq_1, List.length_drop, List.drop_drop]
  congr 1
  omega

/-- A new entry at the end, and as many as fit in front of it. -/
theorem rtake_rtake_concat (l : List α) (a : α) (n : ℕ) :
    (l.rtake n ++ [a]).rtake n = (l ++ [a]).rtake n := by
  have hgrow : l.rtake n ++ [a] = (l ++ [a]).rtake (n + 1) :=
    (List.rtake_concat_succ l n a).symm
  rw [hgrow, rtake_rtake]
  congr 1
  omega

end Rtake

/-! ### Calls on a buffer -/

/-- A call that changes what a buffer holds, or how much it may hold. -/
inductive BufferCall
  | pushContent (str : Bytes) (color : eColor) (localTime : Tm)
  | clear
  | setContentBufferCapacity (capacity : ℕ)
  deriving DecidableEq, Repr

/-- It is a `PushContent` call. -/
def BufferCall.isPush : BufferCall → Bool
  | .pushContent _ _ _ => true
  | _ => false

/-- The entry that a push appends. -/
def Content.pushed (str : Bytes) (color : eColor) (localTime : Tm) : Content :=
  ⟨DisplayBuffer.getCurrentTimeString localTime, str, color⟩

/-- Perform a call. -/
def DisplayBuffer.step (buf : DisplayBuffer) : BufferCall → DisplayBuffer × Unit
  | .pushContent str color localTime => (buf.pushContent str color localTime, ())
  | .clear => (buf.clear, ())
  | .setContentBufferCapacity capacity => (buf.setContentBufferCapacity capacity, ())

/-- A step of a run. -/
abbrev BufferEvent := Event DisplayBuffer BufferCall Unit

/-- The entries pushed since the last `Clear`, after one more call. -/
def BufferCall.record (pushed : List Content) : BufferCall → List Content
  | .pushContent str color localTime =>
    pushed ++ [.pushed str color localTime]
  | .clear => []
  | .setContentBufferCapacity _ => pushed

/-- The entries pushed since the last `Clear`, each with its text, colour and time. -/
def pushedSinceClear (es : List BufferEvent) : List Content :=
  es.foldl (fun pushed e => e.input.record pushed) []

theorem pushedSinceClear_concat (es : List BufferEvent) (e : BufferEvent) :
    pushedSinceClear (es ++ [e]) = e.input.record (pushedSinceClear es) := by
  simp only [pushedSinceClear, List.foldl_append, List.foldl_cons, List.foldl_nil]

variable {buf : DisplayBuffer} {c : BufferCall} {calls : List BufferCall}

namespace DisplayBuffer

/-- A push keeps the end of what was held: as many entries as the capacity allows, or as
many as there were before if these are more. -/
theorem contents_pushContent (buf : DisplayBuffer) (str : Bytes) (color : eColor) (t : Tm) :
    (buf.pushContent str color t).mContentBuffer =
      (buf.mContentBuffer ++ [Content.pushed str color t]).rtake
        (max buf.mContentBufferCapacity buf.mContentBuffer.length) := by
  have hlen : (buf.mContentBuffer ++ [Content.pushed str color t]).length =
      buf.mContentBuffer.length + 1 := by
    rw [List.length_append, List.length_singleton]
  show (if (buf.mContentBuffer ++ [Content.pushed str color t]).length >
    buf.mContentBufferCapacity then _ else _ : DisplayBuffer).mContentBuffer = _
  by_cases h : buf.mContentBuffer.length + 1 > buf.mContentBufferCapacity
  · have hone : buf.mContentBuffer.length + 1 -
        max buf.mContentBufferCapacity buf.mContentBuffer.length = 1 := by
      omega
    rw [if_pos (by rw [hlen]; exact h), List.rtake.eq_1, hlen, hone, List.drop_one]
    rfl
  · rw [if_neg (by rw [hlen]; exact h), rtake_of_length_le (by rw [hlen]; omega)]
    rfl

theorem capacity_pushContent (buf : DisplayBuffer) (str : Bytes) (color : eColor) (t : Tm) :
    (buf.pushContent str color t).mContentBufferCapacity = buf.mContentBufferCapacity := by
  simp only [pushContent]
  split <;> rfl

/-- A push above the capacity keeps the number of entries. -/
theorem length_pushContent (buf : DisplayBuffer) (str : Bytes) (color : eColor) (t : Tm) :
    (buf.pushContent str color t).mContentBuffer.length =
      min (max buf.mContentBufferCapacity buf.mContentBuffer.length)
        (buf.mContentBuffer.length + 1) := by
  rw [contents_pushContent, length_rtake, List.length_append, List.length_singleton]

end DisplayBuffer

/-- Every call keeps the end of what was pushed since the last `Clear`. -/
theorem contents_suffix_step {pushed : List Content} (h : buf.mContentBuffer <:+ pushed)
    (c : BufferCall) : (buf.step c).1.mContentBuffer <:+ c.record pushed := by
  cases c with
  | pushContent str color t =>
    show (buf.pushContent str color t).mContentBuffer <:+ _
    rw [DisplayBuffer.contents_pushContent]
    refine (rtake_suffix _ _).trans ?_
    obtain ⟨front, rfl⟩ := h
    exact ⟨front, by rw [BufferCall.record, List.append_assoc]⟩
  | clear => exact List.suffix_refl []
  | setContentBufferCapacity capacity => exact h

/-- A push leaves at most the capacity exactly if it found at most that. -/
theorem bounded_step_iff :
    (c.isPush = true →
      (buf.step c).1.mContentBuffer.length ≤ (buf.step c).1.mContentBufferCapacity) ↔
    (c.isPush = true → buf.mContentBuffer.length ≤ buf.mContentBufferCapacity) := by
  cases c with
  | pushContent str color t =>
    refine imp_congr_right fun _ => ?_
    show (buf.pushContent str color t).mContentBuffer.length ≤
      (buf.pushContent str color t).mContentBufferCapacity ↔ _
    rw [DisplayBuffer.length_pushContent, DisplayBuffer.capacity_pushContent]
    omega
  | clear => exact ⟨fun _ hpush => absurd hpush (by simp [BufferCall.isPush]),
      fun _ hpush => absurd hpush (by simp [BufferCall.isPush])⟩
  | setContentBufferCapacity capacity =>
    exact ⟨fun _ hpush => absurd hpush (by simp [BufferCall.isPush]),
      fun _ hpush => absurd hpush (by simp [BufferCall.isPush])⟩

/-- **The content buffer holds the latest entries.**  In every run, what is held is a suffix
of what was pushed since the last `Clear`, whatever the capacity is. -/
theorem contents_suffix_run (calls : List BufferCall) :
    Always DisplayBuffer.step DisplayBuffer.new
      (fun es buf => buf.mContentBuffer <:+ pushedSinceClear es) calls := by
  refine always_of_step (P := fun _ _ _ => True) (List.suffix_refl []) ?_
    (Along.of_forall fun _ _ _ _ => trivial)
  intro es buf c hsuffix _
  rw [pushedSinceClear_concat]
  exact contents_suffix_step hsuffix c

/-- **When the content buffer respects its capacity.**  Along every run, what is held is
a suffix of what was pushed since the last `Clear`, and each push leaves at most the
current capacity, exactly if no push finds more entries than the capacity. -/
theorem contentBuffer_bounded_iff (calls : List BufferCall) :
    (Along DisplayBuffer.step DisplayBuffer.new (fun _ buf c => c.isPush = true →
        (buf.step c).1.mContentBuffer.length ≤ (buf.step c).1.mContentBufferCapacity) calls ∧
      Always DisplayBuffer.step DisplayBuffer.new
        (fun es buf => buf.mContentBuffer <:+ pushedSinceClear es) calls) ↔
    Along DisplayBuffer.step DisplayBuffer.new (fun _ buf c => c.isPush = true →
      buf.mContentBuffer.length ≤ buf.mContentBufferCapacity) calls := by
  constructor
  · rintro ⟨h, -⟩ pre c hc
    exact bounded_step_iff.mp (h pre c hc)
  · intro h
    exact ⟨fun pre c hc => bounded_step_iff.mpr (h pre c hc), contents_suffix_run calls⟩

/-- Two entries are held, the capacity becomes one, and a push leaves two. -/
theorem contentBuffer_lowered :
    ¬ (Along DisplayBuffer.step DisplayBuffer.new (fun _ buf c => c.isPush = true →
        (buf.step c).1.mContentBuffer.length ≤ (buf.step c).1.mContentBufferCapacity)
        [.pushContent [97] .Default ⟨9, 0⟩, .pushContent [98] .Default ⟨9, 0⟩,
          .setContentBufferCapacity 1, .pushContent [99] .Default ⟨9, 0⟩] ∧
      Always DisplayBuffer.step DisplayBuffer.new
        (fun es buf => buf.mContentBuffer <:+ pushedSinceClear es)
        [.pushContent [97] .Default ⟨9, 0⟩, .pushContent [98] .Default ⟨9, 0⟩,
          .setContentBufferCapacity 1, .pushContent [99] .Default ⟨9, 0⟩]) := by
  rintro ⟨h, -⟩
  have hpush := h [.pushContent [97] .Default ⟨9, 0⟩, .pushContent [98] .Default ⟨9, 0⟩,
    .setContentBufferCapacity 1] (.pushContent [99] .Default ⟨9, 0⟩) (List.prefix_refl _) rfl
  exact absurd hpush (by decide)

/-- With a capacity that does not change, a call keeps exactly the latest entries. -/
theorem contents_eq_rtake {n : ℕ} {pushed : List Content}
    (hcap : buf.mContentBufferCapacity = n) (h : buf.mContentBuffer = pushed.rtake n)
    (hc : ∀ capacity, c ≠ .setContentBufferCapacity capacity) :
    (buf.step c).1.mContentBufferCapacity = n ∧
      (buf.step c).1.mContentBuffer = (c.record pushed).rtake n := by
  cases c with
  | pushContent str color t =>
    refine ⟨(buf.capacity_pushContent str color t).trans hcap, ?_⟩
    have hlen : buf.mContentBuffer.length ≤ n := by
      rw [h, length_rtake]
      exact min_le_left _ _
    show (buf.pushContent str color t).mContentBuffer = _
    rw [DisplayBuffer.contents_pushContent, hcap, max_eq_left hlen, h, rtake_rtake_concat]
    rfl
  | clear => exact ⟨hcap, (List.rtake_nil n).symm⟩
  | setContentBufferCapacity capacity => exact absurd rfl (hc capacity)

end Gdf
