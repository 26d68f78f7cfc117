/-
The terminal mode, and the console objects that share it.

The first `DisplayConsole` of a program saves the attributes of the terminal and
switches canonical mode and echo off; the last one to go restores them.  The count of
objects and the saved attributes are static members, so what one object undoes depends
on what all the others did.  Standard input is a terminal.

An object is known by its address, which is not null and differs from those of the
other objects alive.  The class declares no copy constructor; the one that the
compiler provides copies the members, and leaves the static ones alone.

`terminalMode_iff` — along every run of constructions, copies and destructions, the
count is that of the live objects and the terminal follows them, exactly if no object
is copied (and the terminal was not in that mode to begin with).
-/
import BsdGdf.Config
import BsdGdf.Runs
import Mathlib.Data.Finset.Card
import Mathlib.Order.Interval.Finset.Nat

namespace Gdf

open Runs

/-! ### The static members -/

/-- `struct termios`. -/
structure Termios where
  c_iflag : UInt64
  c_oflag : UInt64
  c_cflag : UInt64
  c_lflag : UInt64
  c_cc : List UInt8
  c_ispeed : UInt64
  c_ospeed : UInt64
  deriving DecidableEq, Repr

/-- `ICANON`. -/
def ICANON : UInt64 := 0x100

/-- `ECHO`. -/
def ECHO : UInt64 := 0x8

namespace Termios

/-- The value of a static object without an initialiser. -/
def zero : Termios := ⟨0, 0, 0, 0, [], 0, 0⟩

/-- Canonical mode and echo are off. -/
def Raw (t : Termios) : Prop := t.c_lflag &&& ICANON = 0 ∧ t.c_lflag &&& ECHO = 0

instance : DecidablePred Raw := fun _ => inferInstanceAs (Decidable (_ ∧ _))

end Termios

/-- The attributes of the terminal, and the static members of `DisplayConsole`. -/
structure ConsoleStatics where
  terminal : Termios
  sStaticInstanceCount : UInt64
  sStaticOldTerminal : Termios
  deriving DecidableEq, Repr

namespace ConsoleStatics

/-- Before the first construction. -/
def init (terminal : Termios) : ConsoleStatics := ⟨terminal, 0, Termios.zero⟩

/-- `setTerminalMode(enable)`. -/
def setTerminalMode (st : ConsoleStatics) (enable : Bool) : ConsoleStatics :=
  if enable then
    let st := { st with sStaticOldTerminal := st.terminal }
    let newTerminal := st.sStaticOldTerminal
    let newTerminal := { newTerminal with c_lflag := newTerminal.c_lflag &&& ~~~ICANON }
    let newTerminal := { newTerminal with c_lflag := newTerminal.c_lflag &&& ~~~ECHO }
    { st with terminal := newTerminal }
  else
    { st with terminal := st.sStaticOldTerminal }

/-- What `DisplayConsole(header, footer, headerColor, footerColor)` does to them. -/
def construct (st : ConsoleStatics) : ConsoleStatics :=
  let st := if st.sStaticInstanceCount = 0 then st.setTerminalMode true else st
  { st with sStaticInstanceCount := st.sStaticInstanceCount + 1 }

/-- What `~DisplayConsole()` does to them. -/
def destroy (st : ConsoleStatics) : ConsoleStatics :=
  let st := { st with sStaticInstanceCount := st.sStaticInstanceCount - 1 }
  if st.sStaticInstanceCount = 0 then st.setTerminalMode false else st

end ConsoleStatics

/-! ### Objects -/

/-- The static members, and the addresses of the objects alive. -/
structure Consoles where
  statics : ConsoleStatics
  live : Finset UInt64

/-- An object comes to life or goes. -/
inductive ObjectCall
  | construct (this : UInt64)
  | copy (this other : UInt64)
  | destroy (this : UInt64)
  deriving DecidableEq, Repr

/-- It is a copy construction. -/
def ObjectCall.isCopy : ObjectCall → Bool
  | .copy _ _ => true
  | _ => false

namespace Consoles

/-- No object yet. -/
def init (terminal : Termios) : Consoles := ⟨.init terminal, ∅⟩

/-- Perform a call. -/
def step (w : Consoles) : ObjectCall → Consoles × Unit
  | .construct this => (⟨w.statics.construct, insert this w.live⟩, ())
  | .copy this _ => (⟨w.statics, insert this w.live⟩, ())
  | .destroy this => (⟨w.statics.destroy, w.live.erase this⟩, ())

/-- The address of a new object is not in use, only an object that is alive is copied,
and each is destroyed once. -/
def Valid (w : Consoles) : ObjectCall → Prop
  | .construct this => this ≠ 0 ∧ this ∉ w.live
  | .copy this other => this ≠ 0 ∧ this ∉ w.live ∧ other ∈ w.live
  | .destroy this => this ∈ w.live

instance (w : Consoles) : DecidablePred w.Valid
  | .construct _ => inferInstanceAs (Decidable (_ ∧ _))
  | .copy _ _ => inferInstanceAs (Decidable (_ ∧ _ ∧ _))
  | .destroy _ => inferInstanceAs (Decidable (_ ∈ _))

/-- The count is that of the objects alive, the terminal is in raw mode while there is
one, and otherwise as it was before the first. -/
structure Follows (before : Termios) (w : Consoles) : Prop where
  count : w.statics.sStaticInstanceCount.toNat = w.live.card
  mode : w.statics.terminal.Raw ↔ w.live.Nonempty
  restored : w.live = ∅ → w.statics.terminal = before

/-- What the destructors rely on. -/
structure Counted (before : Termios) (w : Consoles) : Prop where
  follows : w.Follows before
  saved : w.live.Nonempty → w.statics.sStaticOldTerminal = before
  notNull : 0 ∉ w.live

end Consoles

variable {w : Consoles} {before : Termios} {this : UInt64} {calls : List ObjectCall}

/-- There are fewer addresses than the counter can count. -/
theorem card_lt_of_notMem {live : Finset UInt64} (h : 0 ∉ live) : live.card < 2 ^ 64 := by
  have hmaps : Set.MapsTo UInt64.toNat (live : Set UInt64) (Finset.Ico 1 (2 ^ 64) : Set ℕ) := by
    intro a ha
    have hne : a.toNat ≠ 0 := by
      intro h0
      have hzero : a = 0 := UInt64.toNat_inj.mp h0
      rw [hzero] at ha
      exact h ha
    have hlt := UInt64.toNat_lt a
    simp only [Finset.coe_Ico, Set.mem_Ico]
    omega
  have hcard := Finset.card_le_card_of_injOn UInt64.toNat hmaps
    (fun a _ b _ hab => UInt64.toNat_inj.mp hab)
  rw [Nat.card_Ico] at hcard
  omega

theorem raw_enable (st : ConsoleStatics) : (st.setTerminalMode true).terminal.Raw := by
  show st.terminal.c_lflag &&& ~~~ICANON &&& ~~~ECHO &&& ICANON = 0 ∧
    st.terminal.c_lflag &&& ~~~ICANON &&& ~~~ECHO &&& ECHO = 0
  constructor
  · rw [UInt64.and_assoc, UInt64.and_comm (~~~ECHO) ICANON, ← UInt64.and_assoc,
      UInt64.and_assoc st.terminal.c_lflag, UInt64.not_and_self, UInt64.and_zero, UInt64.zero_and]
  · rw [UInt64.and_assoc, UInt64.not_and_self, UInt64.and_zero]

theorem Consoles.Follows.count_eq_zero_iff (h : w.Follows before) :
    w.statics.sStaticInstanceCount = 0 ↔ w.live = ∅ := by
  rw [← UInt64.toNat_inj, h.count]
  exact Finset.card_eq_zero

theorem recounted (h : w.Counted before) (hsome : w.live.Nonempty) {count : UInt64}
    {live : Finset UInt64} (hcount : count.toNat = live.card) (hne : live.Nonempty)
    (hnotNull : 0 ∉ live) :
    (Consoles.mk { w.statics with sStaticInstanceCount := count } live).Counted before where
  follows := ⟨hcount, ⟨fun _ => hne, fun _ => h.follows.mode.mpr hsome⟩,
    fun h0 => absurd h0 hne.ne_empty⟩
  saved _ := h.saved hsome
  notNull := hnotNull

/-- A construction counts the object; the first one saves and switches. -/
theorem construct_counted (h : w.Counted before) (hnull : this ≠ 0) (hnew : this ∉ w.live) :
    (Consoles.mk w.statics.construct (insert this w.live)).Counted before := by
  have hnotNull : 0 ∉ insert this w.live := by
    rw [Finset.mem_insert]
    rintro (h0 | h0)
    · exact hnull h0.symm
    · exact h.notNull h0
  have hroom := card_lt_of_notMem hnotNull
  rw [Finset.card_insert_of_notMem hnew] at hroom
  have hcount : (w.statics.sStaticInstanceCount + 1).toNat = (insert this w.live).card := by
    rw [Finset.card_insert_of_notMem hnew, UInt64.toNat_add, h.follows.count]
    exact Nat.mod_eq_of_lt hroom
  have hne : (insert this w.live).Nonempty := Finset.insert_nonempty this w.live
  by_cases hlive : w.live = ∅
  · -- the terminal is as it was before the first object, and that is what is saved
    have hzero := h.follows.count_eq_zero_iff.mpr hlive
    have hst : w.statics.construct =
        { w.statics.setTerminalMode true with
          sStaticInstanceCount := w.statics.sStaticInstanceCount + 1 } := by
      simp only [ConsoleStatics.construct, if_pos hzero]
      rfl
    rw [hst]
    refine ⟨⟨hcount, ?_, fun h0 => absurd h0 hne.ne_empty⟩,
      fun _ => h.follows.restored hlive, hnotNull⟩
    exact ⟨fun _ => hne, fun _ => raw_enable w.statics⟩
  · have hzero : w.statics.sStaticInstanceCount ≠ 0 := fun h0 =>
      hlive (h.follows.count_eq_zero_iff.mp h0)
    have hst : w.statics.construct =
        { w.statics with sStaticInstanceCount := w.statics.sStaticInstanceCount + 1 } := by
      simp only [ConsoleStatics.construct, if_neg hzero]
    rw [hst]
    exact recounted h (Finset.nonempty_iff_ne_empty.mpr hlive) hcount hne hnotNull

/-- A destruction uncounts the object; the last one restores. -/
theorem destroy_counted (h : w.Counted before) (hraw : ¬ before.Raw) (hin : this ∈ w.live) :
    (Consoles.mk w.statics.destroy (w.live.erase this)).Counted before := by
  have hsome : w.live.Nonempty := ⟨this, hin⟩
  have hpos : 0 < w.live.card := Finset.card_pos.mpr hsome
  have hcard : (w.live.erase this).card = w.live.card - 1 := Finset.card_erase_of_mem hin
  have hcount : (w.statics.sStaticInstanceCount - 1).toNat = (w.live.erase this).card := by
    have hle : 1 ≤ w.statics.sStaticInstanceCount := by
      rw [UInt64.le_iff_toNat_le, h.follows.count]
      exact hpos
    rw [UInt64.toNat_sub_of_le _ _ hle, h.follows.count, hcard]
    rfl
  have hnotNull : 0 ∉ w.live.erase this := fun h0 => h.notNull (Finset.mem_of_mem_erase h0)
  have hiff : w.statics.sStaticInstanceCount - 1 = 0 ↔ w.live.erase this = ∅ := by
    rw [← UInt64.toNat_inj, hcount]
    exact Finset.card_eq_zero
  by_cases hlive : w.live.erase this = ∅
  · have hst : w.statics.destroy =
        { w.statics with
          terminal := w.statics.sStaticOldTerminal
          sStaticInstanceCount := w.statics.sStaticInstanceCount - 1 } := by
      simp only [ConsoleStatics.destroy, if_pos (hiff.mpr hlive)]
      rfl
    have hold := h.saved hsome
    have hnone : ¬ (w.live.erase this).Nonempty := Finset.not_nonempty_iff_eq_empty.mpr hlive
    rw [hst]
    refine ⟨⟨hcount, ⟨fun h0 => ?_, fun h0 => absurd h0 hnone⟩, fun _ => hold⟩,
      fun h0 => absurd h0 hnone, hnotNull⟩
    exact absurd (hold ▸ h0 : before.Raw) hraw
  · have hst : w.statics.destroy =
        { w.statics with sStaticInstanceCount := w.statics.sStaticInstanceCount - 1 } := by
      simp only [ConsoleStatics.destroy, if_neg (fun h0 => hlive (hiff.mp h0))]
    rw [hst]
    exact recounted h hsome hcount (Finset.nonempty_iff_ne_empty.mpr hlive) hnotNull

theorem copy_uncounted (h : w.Counted before) (hnew : this ∉ w.live) :
    ¬ (Consoles.mk w.statics (insert this w.live)).Follows before := by
  intro h'
  have hcount := h'.count
  rw [Finset.card_insert_of_notMem hnew, ← h.follows.count] at hcount
  exact absurd hcount (by simp)

/-- **When the terminal mode follows the live instances.**  Along every run of
constructions, copies and destructions: the count is always that of the live objects,
canonical mode and echo are off exactly while there is one, and without one the
attributes are those of the start — exactly if nothing is copied, and the terminal
did not have both off from the start. -/
theorem terminalMode_iff (hvalid : Along Consoles.step (Consoles.init before)
    (fun _ w c => w.Valid c) calls) :
    Always Consoles.step (Consoles.init before) (fun _ w => w.Follows before) calls ↔
      ¬ before.Raw ∧ ∀ c ∈ calls, c.isCopy = false := by
  have hempty : ¬ (∅ : Finset UInt64).Nonempty := Finset.not_nonempty_empty
  by_cases hraw : before.Raw
  · -- without an object the terminal is raw already
    refine ⟨fun h => ?_, fun h => absurd hraw h.1⟩
    exact absurd ((h [] List.nil_prefix).mode.mp hraw) hempty
  have hstart : (Consoles.init before).Follows before :=
    ⟨rfl, ⟨fun h => absurd h hraw, fun h => absurd h hempty⟩, fun _ => rfl⟩
  have hcounted : (Consoles.init before).Counted before :=
    ⟨hstart, fun h => absurd h hempty, Finset.notMem_empty 0⟩
  have hiff : Always Consoles.step (Consoles.init before) (fun _ w => w.Follows before) calls ↔
      Along Consoles.step (Consoles.init before) (fun _ _ c => c.isCopy = false) calls := by
    refine always_iff_along (I := fun _ w => w.Counted before) (K := fun _ w c => w.Valid c)
      hcounted hstart ?_ ?_ hvalid
    · rintro es w (this | ⟨this, other⟩ | this) h hv hc
      · have hnext := construct_counted h hv.1 hv.2
        exact ⟨hnext, hnext.follows⟩
      · exact absurd hc (by simp [ObjectCall.isCopy])
      · have hnext := destroy_counted h hraw hv
        exact ⟨hnext, hnext.follows⟩
    · rintro es w (this | ⟨this, other⟩ | this) h hv hc
      · exact absurd rfl hc
      · exact copy_uncounted h hv.2.1
      · exact absurd rfl hc
  rw [hiff, along_input_iff]
  exact ⟨fun h => ⟨hraw, h⟩, fun h => h.2⟩

/-- A terminal in canonical mode, with echo. -/
def Termios.sane : Termios := ⟨0x2b02, 0x3, 0x4b00, 0x5cb, [], 9600, 9600⟩

/-- Two objects, the first of which goes first. -/
theorem terminalMode_two :
    Always Consoles.step (Consoles.init .sane) (fun _ w => w.Follows .sane)
        [.construct 16, .construct 32, .destroy 16, .destroy 32] ↔
      ¬ Termios.sane.Raw ∧ ∀ c ∈ [ObjectCall.construct 16, .construct 32, .destroy 16,
        .destroy 32], c.isCopy = false :=
  terminalMode_iff (by decide)

/-- An object and its copy go, and the counter is below zero. -/
theorem terminalMode_copied :
    ¬ Always Consoles.step (Consoles.init .sane) (fun _ w => w.Follows .sane)
      [.construct 16, .copy 32 16, .destroy 16, .destroy 32] := by
  intro h
  have hcount := (h _ (List.prefix_refl _)).count
  exact absurd hcount (by decide)

end Gdf
