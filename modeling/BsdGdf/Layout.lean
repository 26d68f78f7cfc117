/-
The layout of the screen.

Four row builders append to one string.  They subtract from the size of the console and
take substrings, and what keeps them safe is the test of the size that
`renderScreenString` makes before it calls them.

* `obligations_met` — what they rely on holds: nothing wraps, nothing is out of range;
* `bar_eq`, `appendContent_eq`, `appendPrompt_eq` — what each of them then appends, without
  the case distinctions and the wrapping subtractions;
* `screen_layout` — the whole screen, after every run of the console's methods and for
  every size of the window.
-/
import BsdGdf.MultiByte
import BsdGdf.Refresh

namespace Gdf

open Runs

variable {beyond : Bytes → Bytes} {con : DisplayConsole}

/-! ### Rows -/

/-- A space and the text, padded with spaces or cut to `width` bytes. -/
def rowText (width : ℕ) (text : Bytes) : Bytes :=
  (chars [' '] ++ text ++ chars (List.replicate width ' ')).take width

theorem length_rowText (width : ℕ) (text : Bytes) : (rowText width text).length = width := by
  have hspaces : (chars (List.replicate width ' ')).length = width := by simp [chars]
  rw [rowText, List.length_take, List.length_append, hspaces]
  omega

/-- A text that fits is padded. -/
theorem rowText_of_le {width : ℕ} {text : Bytes} (h : text.length + 1 ≤ width) :
    rowText width text =
      chars [' '] ++ text ++ chars (List.replicate (width - (text.length + 1)) ' ') := by
  have hlen : (chars [' '] ++ text).length = text.length + 1 := by
    rw [List.length_append, Nat.add_comm]
    rfl
  rw [rowText, List.take_append, hlen, List.take_of_length_le (by omega), chars, chars,
    ← List.map_take, List.take_replicate, min_eq_left (by omega)]
  rfl

/-- A text that does not fit is cut. -/
theorem rowText_of_lt {width : ℕ} {text : Bytes} (h : width < text.length + 1)
    (hwidth : 1 ≤ width) : rowText width text = chars [' '] ++ text.take (width - 1) := by
  obtain ⟨width, rfl⟩ : ∃ w, width = w + 1 := ⟨width - 1, by omega⟩
  rw [rowText, List.take_append_of_le_length]
  · rfl
  · rw [List.length_append]
    show width + 1 ≤ 1 + text.length
    omega

/-- The longest suffix of at most `n` entries. -/
theorem suffix_rtake_iff {α : Type*} {l s : List α} {n : ℕ} (hs : s <:+ l) :
    s <:+ l.rtake n ↔ s.length ≤ n := by
  constructor
  · intro h
    have hle := h.length_le
    rw [length_rtake] at hle
    omega
  · intro h
    refine List.suffix_of_suffix_length_le hs (rtake_suffix l n) ?_
    have hle := hs.length_le
    rw [length_rtake]
    omega

/-! ### What the row builders rely on -/

/-- A subtraction of two `uint64`, the position of a `substr` in a string, or the index
of an entry in a deque. -/
inductive Obligation
  | sub (a b : ℕ)
  | substr (size pos : ℕ)
  | index (size i : ℕ)
  deriving DecidableEq, Repr

/-- It does not wrap, or it is in range. -/
def Obligation.Met : Obligation → Prop
  | .sub a b => b ≤ a
  | .substr size pos => pos ≤ size
  | .index size i => i < size

namespace DisplayConsole

/-- In `appendHeader` and `appendFooter`. -/
def barObligations (con : DisplayConsole) (text : Bytes) : List Obligation :=
  if text.length + 1 ≤ con.mConsoleWidth then
    [.sub con.mConsoleWidth (text.length + 1)]
  else
    [.sub con.mConsoleWidth 1, .substr text.length 0]

/-- In a round of the loop of `appendContent`. -/
def rowObligations (beyond : Bytes → Bytes) (con : DisplayConsole) (i : ℕ) : List Obligation :=
  let contentBuffer := con.mDisplay.mContentBuffer
  .index contentBuffer.length i ::
    match contentBuffer[i]? with
    | none => []
    | some content =>
      if (strlenMultiByte beyond content.String).1 + con.timestampWidth > con.mConsoleWidth then
        [.sub con.mConsoleWidth con.timestampWidth,
          .sub (subUInt64 con.mConsoleWidth con.timestampWidth) 3]
      else []

/-- In `appendContent`. -/
def contentObligations (beyond : Bytes → Bytes) (con : DisplayConsole) : List Obligation :=
  let leftHeight := subUInt64 con.mConsoleHeight 3
  let contentBuffer := con.mDisplay.mContentBuffer
  let outBufferIndex := if contentBuffer.length > leftHeight then
      subUInt64 contentBuffer.length leftHeight
    else 0
  .sub con.mConsoleHeight 3 ::
    (if contentBuffer.length > leftHeight then [.sub contentBuffer.length leftHeight] else [])
    ++ (List.range' outBufferIndex (contentBuffer.length - outBufferIndex)).flatMap
      (con.rowObligations beyond)

/-- In `appendPrompt`. -/
def promptObligations (con : DisplayConsole) : List Obligation :=
  if con.mPromptBuffer.length + 11 ≤ con.mConsoleWidth then
    []
  else
    let leftWidth := subUInt64 con.mConsoleWidth 11
    [.sub con.mConsoleWidth 11, .sub con.mPromptBuffer.length leftWidth,
      .substr con.mPromptBuffer.length (subUInt64 con.mPromptBuffer.length leftWidth)]

/-- In `renderScreenString`, after `updateConsoleSize`. -/
def renderObligations (beyond : Bytes → Bytes) (con : DisplayConsole) : List Obligation :=
  if con.mConsoleHeight < 8 ∨ con.mConsoleWidth < 18 then
    []
  else
    con.barObligations con.mDisplay.mHeader ++ con.contentObligations beyond
      ++ .sub con.mConsoleHeight 1 :: con.barObligations con.mDisplay.mFooter
      ++ con.promptObligations

end DisplayConsole

theorem barObligations_met (hwidth : 1 ≤ con.mConsoleWidth) (text : Bytes) :
    ∀ o ∈ con.barObligations text, o.Met := by
  rw [DisplayConsole.barObligations]
  split
  case isTrue hfits =>
    intro o ho
    rw [List.mem_singleton.mp ho]
    exact hfits
  case isFalse =>
    intro o ho
    rcases List.mem_cons.mp ho with rfl | ho
    · exact hwidth
    · rw [List.mem_singleton.mp ho]
      exact Nat.zero_le _

theorem rowObligations_met (hwidth : 13 ≤ con.mConsoleWidth) {i : ℕ}
    (hi : i < con.mDisplay.mContentBuffer.length) : ∀ o ∈ con.rowObligations beyond i, o.Met := by
  have hstamp := timestampWidth_le con
  intro o ho
  rcases List.mem_cons.mp ho with rfl | ho
  · exact hi
  rw [List.getElem?_eq_getElem hi] at ho
  split at ho
  case h_1 => exact absurd ho List.not_mem_nil
  case h_2 content _ =>
    split at ho
    case isFalse => exact absurd ho List.not_mem_nil
    case isTrue =>
      rcases List.mem_cons.mp ho with rfl | ho
      · show con.timestampWidth ≤ con.mConsoleWidth
        omega
      · rw [List.mem_singleton.mp ho,
          subUInt64_of_le (show con.timestampWidth ≤ con.mConsoleWidth by omega)]
        show 3 ≤ con.mConsoleWidth - con.timestampWidth
        omega

theorem contentObligations_met (hheight : 3 ≤ con.mConsoleHeight)
    (hwidth : 13 ≤ con.mConsoleWidth) : ∀ o ∈ con.contentObligations beyond, o.Met := by
  intro o ho
  simp only [DisplayConsole.contentObligations, List.cons_append] at ho
  rcases List.mem_cons.mp ho with rfl | ho
  · exact hheight
  rcases List.mem_append.mp ho with ho | ho
  · split at ho
    case isFalse => exact absurd ho List.not_mem_nil
    case isTrue hmore =>
      rw [List.mem_singleton.mp ho]
      exact hmore.le
  · obtain ⟨i, hi, ho⟩ := List.mem_flatMap.mp ho
    obtain ⟨hge, hlt⟩ := List.mem_range'_1.mp hi
    refine rowObligations_met hwidth ?_ o ho
    omega

theorem promptObligations_met (hwidth : 11 ≤ con.mConsoleWidth) :
    ∀ o ∈ con.promptObligations, o.Met := by
  simp only [DisplayConsole.promptObligations, subUInt64_of_le hwidth]
  split
  case isTrue => exact fun o ho => absurd ho List.not_mem_nil
  case isFalse hlong =>
    have hle : con.mConsoleWidth - 11 ≤ con.mPromptBuffer.length := by omega
    rw [subUInt64_of_le hle]
    intro o ho
    rcases List.mem_cons.mp ho with rfl | ho
    · exact hwidth
    rcases List.mem_cons.mp ho with rfl | ho
    · exact hle
    · rw [List.mem_singleton.mp ho]
      exact Nat.sub_le _ _

/-- **Nothing wraps and nothing is out of range** while a screen is rendered. -/
theorem obligations_met (beyond : Bytes → Bytes) (con : DisplayConsole) :
    ∀ o ∈ con.renderObligations beyond, o.Met := by
  rw [DisplayConsole.renderObligations]
  split
  case isTrue => exact fun o ho => absurd ho List.not_mem_nil
  case isFalse hsize =>
    -- the test of `renderScreenString` is what all the others rest on
    have hheight : 8 ≤ con.mConsoleHeight := by omega
    have hwidth : 18 ≤ con.mConsoleWidth := by omega
    intro o ho
    rcases List.mem_append.mp ho with ho | ho
    · rcases List.mem_append.mp ho with ho | ho
      · rcases List.mem_append.mp ho with ho | ho
        · exact barObligations_met (by omega) _ o ho
        · exact contentObligations_met (by omega) (by omega) o ho
      · rcases List.mem_cons.mp ho with rfl | ho
        · show 1 ≤ con.mConsoleHeight
          omega
        · exact barObligations_met (by omega) _ o ho
    · exact promptObligations_met (by omega) o ho

/-! ### What they append -/

/-- The header row and the footer row. -/
theorem bar_eq (color : Bytes) {text : Bytes} (h : ∀ o ∈ con.barObligations text, o.Met) :
    con.bar color text =
      color ++ rowText con.mConsoleWidth text ++ mANSIColors .Default ++ chars ['\n'] := by
  simp only [DisplayConsole.bar]
  rw [DisplayConsole.barObligations] at h
  by_cases hfits : text.length + 1 ≤ con.mConsoleWidth
  · rw [if_pos hfits, rowText_of_le hfits, subUInt64_of_le hfits]
    simp only [List.append_assoc]
    rfl
  · rw [if_neg hfits] at h
    have hwidth : 1 ≤ con.mConsoleWidth := h _ List.mem_cons_self
    rw [if_neg hfits, rowText_of_lt (by omega) hwidth, subUInt64_of_le hwidth, substr,
      List.drop_zero]
    simp only [List.append_assoc]
    rfl

/-- The content rows are those of the latest contents, as many as there is room for. -/
theorem appendContent_eq (h : ∀ o ∈ con.contentObligations beyond, o.Met)
    (screenBuffer : Bytes) :
    con.appendContent beyond screenBuffer = screenBuffer ++
      (con.mDisplay.mContentBuffer.rtake (con.mConsoleHeight - 3)).flatMap
        (con.contentRow beyond) := by
  have hheight : 3 ≤ con.mConsoleHeight := h _ List.mem_cons_self
  simp only [DisplayConsole.appendContent, subUInt64_of_le hheight]
  by_cases hmore : con.mDisplay.mContentBuffer.length > con.mConsoleHeight - 3
  · rw [if_pos hmore, subUInt64_of_le hmore.le, List.rtake.eq_1]
  · rw [if_neg hmore, rtake_of_length_le (not_lt.mp hmore), List.drop_zero]

/-- The prompt row shows the end of the prompt. -/
theorem appendPrompt_eq (h : ∀ o ∈ con.promptObligations, o.Met) (screenBuffer : Bytes) :
    con.appendPrompt screenBuffer =
      screenBuffer ++ DisplayConsole.cursorToLine (toInt con.mConsoleHeight) ++
        DisplayConsole.promptMarker ++ con.mPromptBuffer.rtake (con.mConsoleWidth - 11) := by
  simp only [DisplayConsole.appendPrompt]
  simp only [DisplayConsole.promptObligations] at h
  by_cases hfits : con.mPromptBuffer.length + 11 ≤ con.mConsoleWidth
  · rw [if_pos hfits, rtake_of_length_le (by omega)]
  · rw [if_neg hfits] at h
    have hwidth : 11 ≤ con.mConsoleWidth := h _ List.mem_cons_self
    have hleft : subUInt64 con.mConsoleWidth 11 ≤ con.mPromptBuffer.length :=
      h _ (List.mem_cons_of_mem _ List.mem_cons_self)
    rw [if_neg hfits, subUInt64_of_le hleft, subUInt64_of_le hwidth, List.rtake.eq_1]

/-! ### What the console holds after a run -/

/-- What a call does to the content buffer, if it does anything. -/
def ConsoleCall.bufferCall : ConsoleCall → Option BufferCall
  | .pushContent content color localTime => some (.pushContent content color localTime)
  | .clearContent => some .clear
  | _ => none

/-- The contents pushed since the last `ClearContent`. -/
def contentsPushed (es : List ConsoleEvent) : List Content :=
  es.foldl (fun pushed e => match e.input.bufferCall with
    | some c => c.record pushed
    | none => pushed) []

theorem contentsPushed_concat (es : List ConsoleEvent) (e : ConsoleEvent) :
    contentsPushed (es ++ [e]) = match e.input.bufferCall with
      | some c => c.record (contentsPushed es)
      | none => contentsPushed es := by
  simp only [contentsPushed, List.foldl_append, List.foldl_cons, List.foldl_nil]

theorem updateConsoleSize_mDisplay (con : DisplayConsole) (window : Winsize) :
    (con.updateConsoleSize window).1.mDisplay = con.mDisplay := by
  rw [DisplayConsole.updateConsoleSize]
  split_ifs <;> rfl

theorem refresh_mDisplay (beyond : Bytes → Bytes) (con : DisplayConsole)
    (window window' : Winsize) (wrote : Option ℕ) :
    (con.refresh beyond window window' wrote).1.mDisplay = con.mDisplay := by
  have hrender : ∀ con₀ : DisplayConsole,
      (con₀.renderScreenString beyond window').mDisplay = con₀.mDisplay :=
    fun con₀ => updateConsoleSize_mDisplay con₀ window'
  have hrerender : (con.rerender beyond window window').1.mDisplay = con.mDisplay := by
    simp only [DisplayConsole.rerender]
    split_ifs
    · exact hrender con
    · rfl
    · exact (hrender _).trans (updateConsoleSize_mDisplay con window)
    · exact updateConsoleSize_mDisplay con window
  have hflush : ((con.rerender beyond window window').1.flush wrote).1.mDisplay =
      (con.rerender beyond window window').1.mDisplay := by
    rcases flush_cases (con.rerender beyond window window').1 wrote with
      ⟨-, heq⟩ | ⟨-, -, heq⟩ | ⟨n, -, -, -, heq⟩ | ⟨-, -, heq⟩ <;> rw [heq]
  exact hflush.trans hrerender

/-- Only `PushContent` and `ClearContent` touch the content buffer. -/
theorem console_contents (beyond : Bytes → Bytes) (con : DisplayConsole) (c : ConsoleCall) :
    match c.bufferCall with
    | some bc => (con.step beyond c).1.mDisplay = (con.mDisplay.step bc).1
    | none => (con.step beyond c).1.mDisplay.mContentBufferCapacity =
          con.mDisplay.mContentBufferCapacity ∧
        (con.step beyond c).1.mDisplay.mContentBuffer = con.mDisplay.mContentBuffer := by
  cases c with
  | pushContent => rfl
  | clearContent => rfl
  | refresh window window' wrote =>
    have hdisplay := refresh_mDisplay beyond con window window' wrote
    exact ⟨congrArg DisplayBuffer.mContentBufferCapacity hdisplay,
      congrArg DisplayBuffer.mContentBuffer hdisplay⟩
  | pushCharPrompt ch stdin =>
    show (con.pushCharPrompt ch stdin).1.mDisplay.mContentBufferCapacity = _ ∧
      (con.pushCharPrompt ch stdin).1.mDisplay.mContentBuffer = _
    rw [DisplayConsole.pushCharPrompt]
    split_ifs <;> exact ⟨rfl, rfl⟩
  | pollPromptQueue prompt =>
    show (con.pollPromptQueue prompt).1.mDisplay.mContentBufferCapacity = _ ∧
      (con.pollPromptQueue prompt).1.mDisplay.mContentBuffer = _
    rw [DisplayConsole.pollPromptQueue]
    split <;> exact ⟨rfl, rfl⟩
  | _ => exact ⟨rfl, rfl⟩

/-- The content buffer holds the latest contents, up to its capacity of 1024. -/
structure HoldsLatest (es : List ConsoleEvent) (con : DisplayConsole) : Prop where
  capacity : con.mDisplay.mContentBufferCapacity = 1024
  contents : con.mDisplay.mContentBuffer = (contentsPushed es).rtake 1024

theorem holdsLatest_step {es : List ConsoleEvent} (h : HoldsLatest es con) (c : ConsoleCall) :
    HoldsLatest (es ++ [event (DisplayConsole.step beyond) con c]) (con.step beyond c).1 := by
  have hstep := console_contents beyond con c
  have hpushed : contentsPushed (es ++ [event (DisplayConsole.step beyond) con c]) =
      match c.bufferCall with
      | some c => c.record (contentsPushed es)
      | none => contentsPushed es := contentsPushed_concat es _
  cases hc : c.bufferCall with
  | none =>
    rw [hc] at hpushed hstep
    obtain ⟨hcap, hcont⟩ := hstep
    exact ⟨hcap.trans h.capacity, by rw [hcont, hpushed, h.contents]⟩
  | some bc =>
    rw [hc] at hpushed hstep
    have hkeep : ∀ capacity, bc ≠ .setContentBufferCapacity capacity := by
      rintro capacity rfl
      cases c <;> simp [ConsoleCall.bufferCall] at hc
    obtain ⟨hcap, hcont⟩ := contents_eq_rtake h.capacity h.contents hkeep
    exact ⟨by rw [hstep, hcap], by rw [hstep, hcont, hpushed]⟩

/-! ### The screen -/

/-- `"\033[H\033[J"`. -/
def clearScreen : Bytes := ESC :: chars ['[', 'H'] ++ ESC :: chars ['[', 'J']

/-- The object that `renderScreenString` renders has the size of the window. -/
theorem updateConsoleSize_eq (con : DisplayConsole) (window : Winsize) :
    (con.updateConsoleSize window).1 = { con with
      mConsoleWidth := window.ws_col.toNat
      mConsoleHeight := window.ws_row.toNat } := by
  rw [DisplayConsole.updateConsoleSize]
  split_ifs with hsize
  · rfl
  · obtain ⟨hwidth, hheight⟩ := not_or.mp hsize
    rw [← not_not.mp hwidth, ← not_not.mp hheight]

/-- A screen too small for the rows. -/
theorem screenString_small (hsize : con.mConsoleHeight < 8 ∨ con.mConsoleWidth < 18) :
    con.screenString beyond = clearScreen := by
  simp only [DisplayConsole.screenString, if_pos hsize]
  rfl

/-- A screen that holds them. -/
theorem screenString_rows (hheight : 8 ≤ con.mConsoleHeight) (hwidth : 18 ≤ con.mConsoleWidth)
    (hint : con.mConsoleHeight < 2 ^ 31) :
    con.screenString beyond = clearScreen ++
      (con.mHeaderColor ++ rowText con.mConsoleWidth con.mDisplay.mHeader ++
        mANSIColors .Default ++ chars ['\n']) ++
      (con.mDisplay.mContentBuffer.rtake (con.mConsoleHeight - 3)).flatMap
        (con.contentRow beyond) ++
      DisplayConsole.cursorToLine (con.mConsoleHeight - 1 : ℕ) ++
      (con.mFooterColor ++ rowText con.mConsoleWidth con.mDisplay.mFooter ++
        mANSIColors .Default ++ chars ['\n']) ++
      DisplayConsole.cursorToLine con.mConsoleHeight ++ DisplayConsole.promptMarker ++
      con.mPromptBuffer.rtake (con.mConsoleWidth - 11) := by
  have hsize : ¬ (con.mConsoleHeight < 8 ∨ con.mConsoleWidth < 18) := by omega
  have hline : toInt (subUInt64 con.mConsoleHeight 1) = (con.mConsoleHeight - 1 : ℕ) := by
    rw [subUInt64_of_le (show 1 ≤ con.mConsoleHeight by omega), toInt_natCast (by omega)]
  simp only [DisplayConsole.screenString, if_neg hsize]
  rw [appendPrompt_eq (promptObligations_met (by omega)), DisplayConsole.appendFooter,
    appendContent_eq (contentObligations_met (by omega) (by omega)), DisplayConsole.appendHeader,
    bar_eq _ (barObligations_met (by omega) _), bar_eq _ (barObligations_met (by omega) _), hline,
    toInt_natCast hint]
  rfl

/-- **The layout of the screen.**  After every run of the console's methods, from any
header, footer and prompt, and for every size of the window: a small window is only
cleared; any other one is cleared and shows a header row of exactly its width, the
latest contents since the last `ClearContent`, as many as there are, up to 1024 and up
to its height less three, in push order, then on the last line but one a footer row of
exactly its width, and on the last line the marker and the longest end of the prompt
that fits.  On the way nothing wraps and nothing is out of range. -/
theorem screen_layout (beyond : Bytes → Bytes) (header footer prompt : Bytes)
    (headerColor footerColor : eColor) (width₀ height₀ : ℕ) (calls : List ConsoleCall)
    (window : Winsize) :
    let start := { DisplayConsole.new header footer headerColor footerColor width₀ height₀ with
      mPromptBuffer := prompt }
    let con := final (DisplayConsole.step beyond) start calls
    let pushed := contentsPushed (trace (DisplayConsole.step beyond) start calls)
    let width := window.ws_col.toNat
    let height := window.ws_row.toNat
    let sized := (con.updateConsoleSize window).1
    let screen := (con.renderScreenString beyond window).mScreenBuffer
    let rows := pushed.rtake (min 1024 (height - 3))
    let promptEnd := con.mPromptBuffer.rtake (width - 11)
    (height < 8 ∨ width < 18 → screen = clearScreen) ∧
    (8 ≤ height → 18 ≤ width →
      screen = clearScreen ++
          (con.mHeaderColor ++ rowText width con.mDisplay.mHeader ++ mANSIColors .Default ++
            chars ['\n']) ++
          rows.flatMap (sized.contentRow beyond) ++
          DisplayConsole.cursorToLine (height - 1 : ℕ) ++
          (con.mFooterColor ++ rowText width con.mDisplay.mFooter ++ mANSIColors .Default ++
            chars ['\n']) ++
          DisplayConsole.cursorToLine height ++ DisplayConsole.promptMarker ++ promptEnd ∧
      (rowText width con.mDisplay.mHeader).length = width ∧
      (rowText width con.mDisplay.mFooter).length = width ∧
      rows <:+ pushed ∧ rows.length = min pushed.length (min 1024 (height - 3)) ∧
      DisplayConsole.promptMarker.length = 11 ∧ promptEnd <:+ con.mPromptBuffer ∧
      ∀ s, s <:+ con.mPromptBuffer → (s <:+ promptEnd ↔ 11 + s.length ≤ width)) ∧
    ∀ o ∈ sized.renderObligations beyond, o.Met := by
  intro start con pushed width height sized screen rows promptEnd
  have hrun : Always (DisplayConsole.step beyond) start HoldsLatest calls := by
    refine always_of_step (Q := HoldsLatest) (P := fun _ _ _ => True) ⟨rfl, rfl⟩ ?_
      (Along.of_forall fun _ _ _ _ => trivial)
    intro es con c h _
    exact holdsLatest_step h c
  have hlatest : HoldsLatest _ con := hrun.last
  have hsized : sized = { con with mConsoleWidth := width, mConsoleHeight := height } :=
    updateConsoleSize_eq con window
  have hscreen : screen = sized.screenString beyond := rfl
  refine ⟨fun hsmall => ?_, fun hheight hwidth => ?_, obligations_met beyond sized⟩
  · rw [hscreen, hsized]
    exact screenString_small hsmall
  · have hint : height < 2 ^ 31 := lt_trans (UInt16.toNat_lt window.ws_row) (by decide)
    refine ⟨?_, length_rowText _ _, length_rowText _ _, rtake_suffix _ _, ?_, rfl,
      rtake_suffix _ _, ?_⟩
    · have hrows : (con.mDisplay.mContentBuffer).rtake (height - 3) = rows := by
        rw [hlatest.contents, rtake_rtake, min_comm]
      rw [← hrows, hscreen, hsized]
      exact screenString_rows hheight hwidth hint
    · rw [length_rtake, min_comm]
    · intro s hs
      rw [suffix_rtake_iff hs]
      omega

end Gdf
