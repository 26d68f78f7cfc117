/-
Runs of a `DisplayConsole`: what the screen shows of the state of the object.

`screen_catches_up` is the invariant over every run of the public methods, whatever
sizes the window reports and whatever `write()` accepts.  While nothing is marked as
updated the screen buffer is the rendering of the current state; what `write()` has
accepted since the last rendering is the part of it before the index; and a `Refresh`
leaves nothing marked, and if it leaves nothing to write it has written all of it, up to
its first NUL.

The case analysis is in `rerender_cases` and `flush_cases`; `Shown` is the invariant,
and every method keeps it because it either marks the screen as updated and leaves
buffer, index and flag alone (`Shown.of_updated`), or changes nothing that is shown.
-/
import BsdGdf.DisplayConsole
import BsdGdf.Runs

namespace Gdf

open Runs

/-- A call of a public method, with the answers of the terminal. -/
inductive ConsoleCall
  | pushContent (content : Bytes) (color : eColor) (localTime : Tm)
  | clearContent
  | setHeader (str : Bytes)
  | setFooter (str : Bytes)
  | setHeaderColor (color : eColor)
  | setFooterColor (color : eColor)
  | setTimestamp (enable : Bool)
  | pushCharPrompt (ch : UInt8) (stdin : Bytes)
  | pollPromptQueue (prompt : Bytes)
  | refresh (window window' : Winsize) (wrote : Option ℕ)
  deriving DecidableEq, Repr

/-- What a call returns; `polled` has `prompt` afterwards, `read` what is left on
standard input. -/
inductive ConsoleRet
  | void
  | polled (b : Bool) (prompt : Bytes)
  | read (stdin : Bytes)
  deriving DecidableEq, Repr

/-- What a call returns, and what it did to the screen. -/
structure ConsoleReply where
  ret : ConsoleRet
  acts : List ScreenAct
  deriving DecidableEq, Repr

/-- Perform a call. -/
def DisplayConsole.step (beyond : Bytes → Bytes) (con : DisplayConsole) :
    ConsoleCall → DisplayConsole × ConsoleReply
  | .pushContent content color localTime =>
    (con.pushContent content color localTime, ⟨.void, []⟩)
  | .clearContent => (con.clearContent, ⟨.void, []⟩)
  | .setHeader str => (con.setHeader str, ⟨.void, []⟩)
  | .setFooter str => (con.setFooter str, ⟨.void, []⟩)
  | .setHeaderColor color => (con.setHeaderColor color, ⟨.void, []⟩)
  | .setFooterColor color => (con.setFooterColor color, ⟨.void, []⟩)
  | .setTimestamp enable => (con.setTimestamp enable, ⟨.void, []⟩)
  | .pushCharPrompt ch stdin =>
    let r := con.pushCharPrompt ch stdin
    (r.1, ⟨.read r.2, []⟩)
  | .pollPromptQueue prompt =>
    let r := con.pollPromptQueue prompt
    (r.1, ⟨.polled r.2.1 r.2.2, []⟩)
  | .refresh window window' wrote =>
    let r := con.refresh beyond window window' wrote
    (r.1, ⟨.void, r.2⟩)

/-- A step of a run. -/
abbrev ConsoleEvent := Event DisplayConsole ConsoleCall ConsoleReply

/-- The bytes accepted since the last rendering, after one more action. -/
def ScreenAct.accept (shown : Bytes) : ScreenAct → Bytes
  | .rendered => []
  | .write _ none => shown
  | .write handed (some n) => shown ++ handed.take n

/-- The bytes that `write()` has accepted since the last rendering. -/
def sinceRendered (es : List ConsoleEvent) : Bytes :=
  es.foldl (fun shown e => e.output.acts.foldl ScreenAct.accept shown) []

theorem sinceRendered_concat (es : List ConsoleEvent) (e : ConsoleEvent) :
    sinceRendered (es ++ [e]) = e.output.acts.foldl ScreenAct.accept (sinceRendered es) := by
  simp only [sinceRendered, List.foldl_append, List.foldl_cons, List.foldl_nil]

/-- `write()` accepts at most what it was handed. -/
def ScreenAct.Ok : ScreenAct → Prop
  | .write handed (some n) => n ≤ handed.length
  | _ => True

instance : DecidablePred ScreenAct.Ok
  | .rendered => isTrue trivial
  | .write _ none => isTrue trivial
  | .write _ (some _) => inferInstanceAs (Decidable (_ ≤ _))

/-- The terminal keeps the contract of `write()` during a call. -/
def WriteOk (beyond : Bytes → Bytes) (con : DisplayConsole) (c : ConsoleCall) : Prop :=
  ∀ act ∈ (con.step beyond c).2.acts, act.Ok

instance (beyond : Bytes → Bytes) (con : DisplayConsole) (c : ConsoleCall) :
    Decidable (WriteOk beyond con c) :=
  inferInstanceAs (Decidable (∀ act ∈ (con.step beyond c).2.acts, act.Ok))

variable {beyond : Bytes → Bytes} {con con' : DisplayConsole} {shown : Bytes}

/-! ### The two halves of `Refresh` -/

theorem updateConsoleSize_cases (con : DisplayConsole) (window : Winsize) :
    ((con.updateConsoleSize window).2 = false ∧ (con.updateConsoleSize window).1 = con) ∨
    (con.updateConsoleSize window).2 = true := by
  rw [DisplayConsole.updateConsoleSize]
  split_ifs
  · exact .inr rfl
  · exact .inl ⟨rfl, rfl⟩

/-- The first half renders the state it leaves, from the start of the buffer, or does
nothing because nothing has changed. -/
theorem rerender_cases (beyond : Bytes → Bytes) (con : DisplayConsole)
    (window window' : Winsize) :
    (con.bIsScreenUpdated = false ∧ con.rerender beyond window window' = (con, [])) ∨
    ∃ con', con.rerender beyond window window' = (con', [.rendered]) ∧
      con'.mScreenBuffer = con'.screenString beyond ∧ con'.mScreenBufferIndex = 0 ∧
      con'.bIsScreenBufferRemain = true ∧ con'.bIsScreenUpdated = false := by
  have hcurrent : ∀ con₀ : DisplayConsole,
      (con₀.renderScreenString beyond window').mScreenBuffer =
        { con₀.renderScreenString beyond window' with
          mScreenBufferIndex := 0
          bIsScreenBufferRemain := true
          bIsScreenUpdated := false }.screenString beyond := fun con₀ =>
    DisplayConsole.screenString_congr beyond rfl rfl rfl rfl rfl rfl rfl
  cases hup : con.bIsScreenUpdated with
  | true =>
    right
    rw [DisplayConsole.rerender, hup]
    exact ⟨_, rfl, hcurrent con, rfl, rfl, rfl⟩
  | false =>
    rcases updateConsoleSize_cases con window with ⟨hsame, hcon⟩ | hchanged
    · left
      refine ⟨rfl, ?_⟩
      simp only [DisplayConsole.rerender, hup, Bool.false_eq_true, if_false, hsame, hcon]
    · -- the window has changed, so the size that is rendered is read a second time
      right
      simp only [DisplayConsole.rerender, hup, Bool.false_eq_true, if_false, hchanged, if_true]
      exact ⟨_, rfl, hcurrent _, rfl, rfl, rfl⟩

/-- The second half has nothing to write, or fails, or writes a part or the whole of
the rest of the string. -/
theorem flush_cases (con : DisplayConsole) (wrote : Option ℕ) :
    (con.bIsScreenBufferRemain = false ∧ con.flush wrote = (con, [])) ∨
    (con.bIsScreenBufferRemain = true ∧ wrote = none ∧
      con.flush wrote = ({ con with bIsFailed := true },
        [.write (cstr (con.mScreenBuffer.drop con.mScreenBufferIndex)) none])) ∨
    (∃ n, con.bIsScreenBufferRemain = true ∧ wrote = some n ∧
      n ≠ strlen (con.mScreenBuffer.drop con.mScreenBufferIndex) ∧
      con.flush wrote = ({ con with mScreenBufferIndex := con.mScreenBufferIndex + n },
        [.write (cstr (con.mScreenBuffer.drop con.mScreenBufferIndex)) (some n)])) ∨
    (con.bIsScreenBufferRemain = true ∧
      wrote = some (strlen (con.mScreenBuffer.drop con.mScreenBufferIndex)) ∧
      con.flush wrote = ({ con with bIsScreenBufferRemain := false, mScreenBufferIndex := 0 },
        [.write (cstr (con.mScreenBuffer.drop con.mScreenBufferIndex)) wrote])) := by
  cases hr : con.bIsScreenBufferRemain with
  | false => exact .inl ⟨rfl, by simp [DisplayConsole.flush, hr]⟩
  | true =>
    cases wrote with
    | none => exact .inr (.inl ⟨rfl, rfl, by simp [DisplayConsole.flush, hr]⟩)
    | some n =>
      by_cases hn : n = strlen (con.mScreenBuffer.drop con.mScreenBufferIndex)
      · exact .inr (.inr (.inr ⟨rfl, by rw [hn], by simp [DisplayConsole.flush, hr, hn]⟩))
      · exact .inr (.inr (.inl ⟨n, rfl, rfl, hn, by simp [DisplayConsole.flush, hr, hn]⟩))

/-! ### The invariant -/

/-- `shown`, accepted since the last rendering, is the part of the screen buffer before
the index, or all of it; and the buffer is current unless something is marked. -/
structure Shown (beyond : Bytes → Bytes) (shown : Bytes) (con : DisplayConsole) : Prop where
  current : con.bIsScreenUpdated = false → con.mScreenBuffer = con.screenString beyond
  index_le : con.bIsScreenBufferRemain = true →
    con.mScreenBufferIndex ≤ strlen con.mScreenBuffer
  partly : con.bIsScreenBufferRemain = true →
    shown = con.mScreenBuffer.take con.mScreenBufferIndex
  wholly : con.bIsScreenBufferRemain = false → shown = cstr con.mScreenBuffer

/-- A method that marks the screen as updated and leaves the buffer alone. -/
theorem Shown.of_updated (h : Shown beyond shown con) (hup : con'.bIsScreenUpdated = true)
    (hbuf : con'.mScreenBuffer = con.mScreenBuffer)
    (hindex : con'.mScreenBufferIndex = con.mScreenBufferIndex)
    (hremain : con'.bIsScreenBufferRemain = con.bIsScreenBufferRemain) :
    Shown beyond shown con' where
  current := fun hup' => absurd (hup.symm.trans hup') (by simp)
  index_le := by
    rw [hbuf, hindex, hremain]
    exact h.index_le
  partly := by
    rw [hbuf, hindex, hremain]
    exact h.partly
  wholly := by
    rw [hbuf, hremain]
    exact h.wholly

theorem pushCharPrompt_marks (con : DisplayConsole) (ch : UInt8) (stdin : Bytes) :
    (con.pushCharPrompt ch stdin).1.bIsScreenUpdated = true ∧
    (con.pushCharPrompt ch stdin).1.mScreenBuffer = con.mScreenBuffer ∧
    (con.pushCharPrompt ch stdin).1.mScreenBufferIndex = con.mScreenBufferIndex ∧
    (con.pushCharPrompt ch stdin).1.bIsScreenBufferRemain = con.bIsScreenBufferRemain := by
  rw [DisplayConsole.pushCharPrompt]
  split_ifs <;> exact ⟨rfl, rfl, rfl, rfl⟩

theorem Shown.rerender (h : Shown beyond shown con) (window window' : Winsize) :
    Shown beyond ((con.rerender beyond window window').2.foldl ScreenAct.accept shown)
        (con.rerender beyond window window').1 ∧
      (con.rerender beyond window window').1.bIsScreenUpdated = false := by
  rcases rerender_cases beyond con window window' with ⟨hup, heq⟩ |
    ⟨con', heq, hbuf, hindex, hremain, hup⟩ <;> rw [heq]
  · exact ⟨h, hup⟩
  · -- nothing of the new rendering is written yet
    refine ⟨⟨fun _ => hbuf, fun _ => ?_, fun _ => ?_, fun hno => ?_⟩, hup⟩
    · rw [hindex]
      exact Nat.zero_le _
    · rw [hindex]
      rfl
    · exact absurd (hremain.symm.trans hno) (by simp)

theorem Shown.flush (h : Shown beyond shown con) {wrote : Option ℕ}
    (hok : ∀ act ∈ (con.flush wrote).2, act.Ok) :
    Shown beyond ((con.flush wrote).2.foldl ScreenAct.accept shown) (con.flush wrote).1 := by
  rcases flush_cases con wrote with ⟨-, heq⟩ | ⟨hr, -, heq⟩ | ⟨n, hr, -, hne, heq⟩ |
    ⟨hr, hwrote, heq⟩ <;> rw [heq] at hok ⊢
  · exact h
  · exact ⟨h.current, h.index_le, h.partly, h.wholly⟩
  · -- a partial write moves the index inside the visible part of the buffer
    have hle : n ≤ strlen (con.mScreenBuffer.drop con.mScreenBufferIndex) :=
      hok _ (List.mem_singleton_self _)
    have hindex := add_strlen_drop (h.index_le hr)
    refine ⟨h.current, fun _ => ?_, fun _ => ?_, fun hno => absurd (hr.symm.trans hno) (by simp)⟩
    · show con.mScreenBufferIndex + n ≤ strlen con.mScreenBuffer
      omega
    · show shown ++ (cstr (con.mScreenBuffer.drop con.mScreenBufferIndex)).take n = _
      rw [h.partly hr, take_append_take_cstr_drop hle]
  · -- what was handed to `write()` is the rest of the string, and all of it was accepted
    refine ⟨h.current, fun hyes => absurd hyes (by simp), fun hyes => absurd hyes (by simp),
      fun _ => ?_⟩
    rw [hwrote]
    show shown ++ (cstr (con.mScreenBuffer.drop con.mScreenBufferIndex)).take
      (strlen (con.mScreenBuffer.drop con.mScreenBufferIndex)) = cstr con.mScreenBuffer
    rw [h.partly hr, take_append_take_cstr_drop (le_refl _), add_strlen_drop (h.index_le hr),
      take_strlen]

theorem flush_bIsScreenUpdated (con : DisplayConsole) (wrote : Option ℕ) :
    (con.flush wrote).1.bIsScreenUpdated = con.bIsScreenUpdated := by
  rcases flush_cases con wrote with ⟨-, heq⟩ | ⟨-, -, heq⟩ | ⟨n, -, -, -, heq⟩ | ⟨-, -, heq⟩ <;>
    rw [heq]

theorem Shown.refresh (h : Shown beyond shown con) {window window' : Winsize}
    {wrote : Option ℕ} (hok : ∀ act ∈ (con.refresh beyond window window' wrote).2, act.Ok) :
    Shown beyond ((con.refresh beyond window window' wrote).2.foldl ScreenAct.accept shown)
        (con.refresh beyond window window' wrote).1 ∧
      (con.refresh beyond window window' wrote).1.bIsScreenUpdated = false := by
  obtain ⟨hre, hup⟩ := h.rerender window window'
  rw [DisplayConsole.refresh] at hok ⊢
  refine ⟨?_, ?_⟩
  · rw [List.foldl_append]
    exact hre.flush fun act hact => hok act (List.mem_append_right _ hact)
  · show (DisplayConsole.flush _ wrote).1.bIsScreenUpdated = false
    rw [flush_bIsScreenUpdated]
    exact hup

/-- **One call** keeps the invariant. -/
theorem Shown.step (h : Shown beyond shown con) {c : ConsoleCall} (hok : WriteOk beyond con c) :
    Shown beyond ((con.step beyond c).2.acts.foldl ScreenAct.accept shown)
      (con.step beyond c).1 := by
  cases c with
  | refresh window window' wrote => exact (h.refresh hok).1
  | pollPromptQueue prompt =>
    show Shown beyond shown (con.pollPromptQueue prompt).1
    -- the queue of finished prompts is not shown
    rw [DisplayConsole.pollPromptQueue]
    split
    · exact h
    · refine ⟨fun hup => ?_, h.index_le, h.partly, h.wholly⟩
      rw [h.current hup]
      exact DisplayConsole.screenString_congr beyond rfl rfl rfl rfl rfl rfl rfl
  | pushCharPrompt ch stdin =>
    show Shown beyond shown (con.pushCharPrompt ch stdin).1
    obtain ⟨hup, hbuf, hindex, hremain⟩ := pushCharPrompt_marks con ch stdin
    exact h.of_updated hup hbuf hindex hremain
  | pushContent content color localTime =>
    show Shown beyond shown (con.pushContent content color localTime)
    exact h.of_updated rfl rfl rfl rfl
  | clearContent =>
    show Shown beyond shown con.clearContent
    exact h.of_updated rfl rfl rfl rfl
  | setHeader str =>
    show Shown beyond shown (con.setHeader str)
    exact h.of_updated rfl rfl rfl rfl
  | setFooter str =>
    show Shown beyond shown (con.setFooter str)
    exact h.of_updated rfl rfl rfl rfl
  | setHeaderColor color =>
    show Shown beyond shown (con.setHeaderColor color)
    exact h.of_updated rfl rfl rfl rfl
  | setFooterColor color =>
    show Shown beyond shown (con.setFooterColor color)
    exact h.of_updated rfl rfl rfl rfl
  | setTimestamp enable =>
    show Shown beyond shown (con.setTimestamp enable)
    exact h.of_updated rfl rfl rfl rfl

/-! ### The screen catches up -/

/-- **The screen catches up with the state, with no byte repeated or skipped**, in every
run from construction. -/
theorem screen_catches_up {header footer : Bytes} {headerColor footerColor : eColor}
    {width height : ℕ} {calls : List ConsoleCall}
    (hwrite : Along (DisplayConsole.step beyond)
      (DisplayConsole.new header footer headerColor footerColor width height)
      (fun _ con c => WriteOk beyond con c) calls) :
    Always (DisplayConsole.step beyond)
      (DisplayConsole.new header footer headerColor footerColor width height)
      (fun es con =>
        (con.bIsScreenUpdated = false → con.mScreenBuffer = con.screenString beyond) ∧
        (con.bIsScreenBufferRemain = true →
          con.mScreenBufferIndex ≤ con.mScreenBuffer.length ∧
          sinceRendered es = con.mScreenBuffer.take con.mScreenBufferIndex)) calls ∧
    Along (DisplayConsole.step beyond)
      (DisplayConsole.new header footer headerColor footerColor width height)
      (fun es con c => ∀ window window' wrote, c = .refresh window window' wrote →
        (con.step beyond c).1.bIsScreenUpdated = false ∧
        ((con.step beyond c).1.bIsScreenBufferRemain = false →
          sinceRendered (es ++ [event (DisplayConsole.step beyond) con c]) =
            cstr ((con.step beyond c).1.screenString beyond))) calls := by
  set start := DisplayConsole.new header footer headerColor footerColor width height with hstart
  have h0 : Shown beyond (sinceRendered []) start :=
    ⟨fun hno => absurd hno (by simp [hstart, DisplayConsole.new]), fun _ => Nat.zero_le _,
      fun _ => rfl, fun _ => rfl⟩
  have hrun : Always (DisplayConsole.step beyond) start
      (fun es con => Shown beyond (sinceRendered es) con) calls := by
    refine always_of_step h0 (fun es con c h hok => ?_) hwrite
    rw [sinceRendered_concat]
    exact h.step hok
  refine ⟨fun pre hpre => ?_, ?_⟩
  · have h := hrun pre hpre
    exact ⟨h.current, fun hr => ⟨(h.index_le hr).trans (strlen_le _), h.partly hr⟩⟩
  · rintro pre c hpre window window' wrote rfl
    have h := hrun pre ((List.prefix_append _ _).trans hpre)
    obtain ⟨hnext, hup⟩ := h.refresh (hwrite pre _ hpre)
    refine ⟨hup, fun hdone => ?_⟩
    rw [sinceRendered_concat]
    have hall := hnext.wholly hdone
    rw [hnext.current hup] at hall
    exact hall

/-- A screen with one content, written in two pieces with a failed write in between. -/
theorem screen_catches_up_pieces :
    let start := DisplayConsole.new [104] [102] .Cyan .Red 0 0
    let calls : List ConsoleCall := [.pushContent [120] .Green ⟨9, 5⟩,
      .refresh ⟨8, 18⟩ ⟨8, 18⟩ (some 50), .refresh ⟨8, 18⟩ ⟨8, 18⟩ none,
      .refresh ⟨8, 18⟩ ⟨8, 18⟩ (some 78)]
    Always (DisplayConsole.step fun _ => []) start (fun es con =>
        (con.bIsScreenUpdated = false →
          con.mScreenBuffer = con.screenString fun _ => []) ∧
        (con.bIsScreenBufferRemain = true →
          con.mScreenBufferIndex ≤ con.mScreenBuffer.length ∧
          sinceRendered es = con.mScreenBuffer.take con.mScreenBufferIndex)) calls ∧
    Along (DisplayConsole.step fun _ => []) start (fun es con c =>
      ∀ window window' wrote, c = .refresh window window' wrote →
        (con.step (fun _ => []) c).1.bIsScreenUpdated = false ∧
        ((con.step (fun _ => []) c).1.bIsScreenBufferRemain = false →
          sinceRendered (es ++ [event (DisplayConsole.step fun _ => []) con c]) =
            cstr ((con.step (fun _ => []) c).1.screenString fun _ => []))) calls :=
  screen_catches_up (by decide +kernel)

end Gdf
