/-
What a `DisplayConsole` wants its user to see.

A `View` is what the calls of the public methods amount to, without a buffer, a size or a
flag.  `View.drawn` says which terminal shows it: what stands in every cell, in which
rendition, and where the cursor is.  Text is printable ASCII, one column a byte.

The console erases the screen and colours the header in the rendition that it finds, for
it takes nothing back before.  So this rendition stays in the erased cells, and where the
colour of the header says nothing; it is a parameter of the picture.

* `depicts_step` — every call changes the console as it changes the view;
* `drawn_looks_iff` — when the picture looks as on a terminal without a rendition;
* `screen_drawn` — after every run of calls, the rendered string takes a terminal of the
  size of the window, in whatever state it is, to the picture of the view in the
  rendition of this terminal.
-/
import BsdGdf.BarText
import BsdGdf.Prompt
import BsdGdf.Terminal

namespace Gdf

open Runs Terminal

/-- What there is to see: everything pushed since the contents were last cleared, and
the unfinished prompt. -/
structure View where
  header : Bytes
  footer : Bytes
  headerColor : eColor
  footerColor : eColor
  timestamps : Bool
  contents : List Content
  prompt : Bytes
  deriving DecidableEq, Repr

namespace View

/-- What a new console shows. -/
def new (header footer : Bytes) (headerColor footerColor : eColor) : View where
  header := header
  footer := footer
  headerColor := headerColor
  footerColor := footerColor
  timestamps := true
  contents := []
  prompt := []

/-- What a key does to the prompt. -/
def typedKey (prompt : Bytes) (ch : UInt8) : Bytes :=
  if endsLine ch then []
  else if ch = 127 then prompt.dropLast
  else if ch = ESC then prompt
  else prompt ++ [ch]

/-- What a call does to the view. -/
def next (v : View) : ConsoleCall → View
  | .pushContent content color localTime =>
    { v with contents := v.contents ++ [.pushed content color localTime] }
  | .clearContent => { v with contents := [] }
  | .setHeader str => { v with header := str }
  | .setFooter str => { v with footer := str }
  | .setHeaderColor color => { v with headerColor := color }
  | .setFooterColor color => { v with footerColor := color }
  | .setTimestamp enable => { v with timestamps := enable }
  | .pushCharPrompt ch _ => { v with prompt := typedKey v.prompt ch }
  | .pollPromptQueue _ => v
  | .refresh _ _ _ => v

/-! ### On a terminal -/

/-- The codes of a colour. -/
def codes : eColor → List ℕ
  | .Default => [0]
  | .Cyan => [36]
  | .Red => [31]
  | .Green => [32]
  | .BrightBlue => [34, 1]
  | .WhiteCharRedBG => [41, 37]
  | .WhiteCharBlueBG => [44, 37]
  | .WhiteCharGrayBG => [47, 37]

/-- A text in a colour, on a terminal that had another rendition before. -/
def colored (before : Rendition) (color : eColor) (text : Bytes) : List Cell :=
  cellsOf (before.render (codes color)) text

/-- A text of at most `avail` columns, or its first columns and three dots. -/
def abridge (avail : ℕ) (text : Bytes) : Bytes :=
  if text.length ≤ avail then text else text.take (avail - 3) ++ chars ['.', '.', '.']

/-- The columns that a time takes. -/
def stampWidth (v : View) : ℕ := if v.timestamps then 10 else 0

/-- The line of a content: the time and an arrow, and the text in its colour. -/
def contentLine (v : View) (cols : ℕ) (content : Content) : List Cell :=
  (if v.timestamps then
    colored .plain .Default (content.TimeStamp ++ chars [' ']) ++
      colored .plain .BrightBlue (chars ['-']) ++ colored .plain .Default (chars ['!']) ++
      colored .plain .BrightBlue (chars ['-']) ++ colored .plain .Default (chars [' '])
  else []) ++
    colored .plain content.Color (abridge (cols - v.stampWidth) content.String)

/-- The contents that there is room for. -/
def latest (v : View) (rows : ℕ) : List Content := v.contents.rtake (min 1024 (rows - 3))

/-- The lines of the screen.  The header alone depends on the rendition that the terminal
had `before`. -/
def lines (v : View) (rows cols : ℕ) (before : Rendition) (r : ℕ) : List Cell :=
  if rows < 8 ∨ cols < 18 then []
  else if r = 0 then colored before v.headerColor (rowText cols v.header)
  else if r = rows - 2 then colored .plain v.footerColor (rowText cols v.footer)
  else if r = rows - 1 then
    colored .plain .Default (DisplayConsole.promptMarker ++ v.prompt.rtake (cols - 11))
  else ((v.latest rows).map (v.contentLine cols)).getD (r - 1) []

/-- The terminal that shows the view: nothing else is on it, and the cursor stands behind
the prompt.  Erased cells keep what `fill` makes of the rendition that the terminal had
`before`.  A terminal that is too small is empty, and keeps this rendition. -/
def drawn (fill : Rendition → Rendition) (v : View) (rows cols : ℕ) (before : Rendition) :
    Screen :=
  typed rows cols ⟨0x20, fill before⟩ (v.lines rows cols before)
    (if rows < 8 ∨ cols < 18 then 0 else rows - 1)
    (if rows < 8 ∨ cols < 18 then before else .plain)

/-- Nothing is to be seen of the rendition `before`: the colour of the header takes its
place, and an erased cell, if there is one, looks as without it. -/
def Hides (fill : Rendition → Rendition) (v : View) (rows cols : ℕ) (before : Rendition) : Prop :=
  (8 ≤ rows ∧ 18 ≤ cols →
      before.render (codes v.headerColor) = Rendition.plain.render (codes v.headerColor)) ∧
    ((∃ r < rows, (v.lines rows cols before r).length < cols) → fill before = fill .plain)

instance (fill : Rendition → Rendition) (v : View) (rows cols : ℕ) (before : Rendition) :
    Decidable (v.Hides fill rows cols before) :=
  inferInstanceAs (Decidable ((_ → _) ∧ (_ → _)))

end View

/-! ### Printable views -/

/-- A text of printable characters. -/
def PrintableText (text : Bytes) : Prop := ∀ b ∈ text, Printable b

instance : DecidablePred PrintableText := fun _ => List.decidableBAll _ _

/-- The texts and keys of a call are printable, and its time is one of a clock. -/
def ConsoleCall.Plain : ConsoleCall → Prop
  | .pushContent content _ localTime => PrintableText content ∧ localTime.Valid
  | .setHeader str => PrintableText str
  | .setFooter str => PrintableText str
  | .pushCharPrompt ch _ => Printable ch ∨ endsLine ch = true ∨ ch = 127 ∨ ch = ESC
  | _ => True

instance : DecidablePred ConsoleCall.Plain
  | .pushContent _ _ _ => inferInstanceAs (Decidable (_ ∧ _))
  | .setHeader _ => inferInstanceAs (Decidable (PrintableText _))
  | .setFooter _ => inferInstanceAs (Decidable (PrintableText _))
  | .pushCharPrompt _ _ => inferInstanceAs (Decidable (_ ∨ _))
  | .clearContent => isTrue trivial
  | .setHeaderColor _ => isTrue trivial
  | .setFooterColor _ => isTrue trivial
  | .setTimestamp _ => isTrue trivial
  | .pollPromptQueue _ => isTrue trivial
  | .refresh _ _ _ => isTrue trivial

/-- All of a view is printable, and its times take five columns. -/
structure View.Plain (v : View) : Prop where
  header : PrintableText v.header
  footer : PrintableText v.footer
  contents : ∀ content ∈ v.contents, PrintableText content.String ∧
    PrintableText content.TimeStamp ∧ content.TimeStamp.length = 5
  prompt : PrintableText v.prompt

variable {beyond : Bytes → Bytes} {fill : Rendition → Rendition} {con : DisplayConsole} {v : View}
  {text : Bytes} {rows cols : ℕ}

theorem printable_twoDigits {n : ℤ} (h0 : 0 ≤ n) (h : n ≤ 59) :
    PrintableText (DisplayBuffer.twoDigits n) := by
  have hall : ∀ m < 60, PrintableText (DisplayBuffer.twoDigits (m : ℕ)) := by decide
  obtain ⟨m, rfl⟩ := Int.eq_ofNat_of_zero_le h0
  exact hall m (by omega)

theorem PrintableText.append {text' : Bytes} (h : PrintableText text) (h' : PrintableText text') :
    PrintableText (text ++ text') := by
  intro b hb
  rcases List.mem_append.mp hb with hb | hb
  · exact h b hb
  · exact h' b hb

theorem PrintableText.of_subset {text' : Bytes} (h : PrintableText text) (hsub : text' ⊆ text) :
    PrintableText text' := fun b hb => h b (hsub hb)

theorem printable_getCurrentTimeString {t : Tm} (h : t.Valid) :
    PrintableText (DisplayBuffer.getCurrentTimeString t) := by
  have hle : t.tm_hour ≤ 59 := by
    have := h.1.2
    omega
  have hcolon : PrintableText (chars [':']) := by decide
  exact ((printable_twoDigits h.1.1 hle).append hcolon).append
    (printable_twoDigits h.2.1 h.2.2)

theorem printable_typedKey {prompt : Bytes} {ch : UInt8} (h : PrintableText prompt)
    (hch : Printable ch ∨ endsLine ch = true ∨ ch = 127 ∨ ch = ESC) :
    PrintableText (View.typedKey prompt ch) := by
  rw [View.typedKey]
  split_ifs with hend h127 hesc
  · exact fun b hb => absurd hb List.not_mem_nil
  · exact h.of_subset (List.dropLast_subset prompt)
  · exact h
  · -- only a printable character is appended
    have hprintable : Printable ch := by
      rcases hch with hch | hch | hch | hch
      · exact hch
      · exact absurd hch hend
      · exact absurd hch h127
      · exact absurd hch hesc
    refine h.append fun b hb => ?_
    rw [List.mem_singleton.mp hb]
    exact hprintable

/-- Plain calls keep a view plain. -/
theorem plain_next (h : v.Plain) {c : ConsoleCall} (hc : c.Plain) : (v.next c).Plain := by
  cases c with
  | pushContent content color localTime =>
    refine ⟨h.header, h.footer, fun entry hentry => ?_, h.prompt⟩
    rcases List.mem_append.mp hentry with hentry | hentry
    · exact h.contents entry hentry
    · rw [List.mem_singleton.mp hentry]
      exact ⟨hc.1, printable_getCurrentTimeString hc.2, length_getCurrentTimeString hc.2⟩
  | clearContent => exact ⟨h.header, h.footer, fun _ hentry => absurd hentry List.not_mem_nil,
      h.prompt⟩
  | setHeader str => exact ⟨hc, h.footer, h.contents, h.prompt⟩
  | setFooter str => exact ⟨h.header, hc, h.contents, h.prompt⟩
  | pushCharPrompt ch stdin =>
    exact ⟨h.header, h.footer, h.contents, printable_typedKey h.prompt hc⟩
  | _ => exact ⟨h.header, h.footer, h.contents, h.prompt⟩

/-! ### The console behind a view -/

/-- The console holds what the view says, and of the contents the latest 1024. -/
structure Depicts (con : DisplayConsole) (v : View) : Prop where
  header : con.mDisplay.mHeader = v.header
  footer : con.mDisplay.mFooter = v.footer
  headerColor : con.mHeaderColor = mANSIColors v.headerColor
  footerColor : con.mFooterColor = mANSIColors v.footerColor
  timestamps : con.bIsTimestampEnabled = v.timestamps
  capacity : con.mDisplay.mContentBufferCapacity = 1024
  contents : con.mDisplay.mContentBuffer = v.contents.rtake 1024
  prompt : con.mPromptBuffer = v.prompt

/-- The consoles differ in their sizes, flags, finished prompts and screen buffers only. -/
structure Alike (con con' : DisplayConsole) : Prop where
  display : con'.mDisplay = con.mDisplay
  headerColor : con'.mHeaderColor = con.mHeaderColor
  footerColor : con'.mFooterColor = con.mFooterColor
  timestamps : con'.bIsTimestampEnabled = con.bIsTimestampEnabled
  prompt : con'.mPromptBuffer = con.mPromptBuffer

theorem Depicts.alike (h : Depicts con v) {con' : DisplayConsole} (hsame : Alike con con') :
    Depicts con' v where
  header := (congrArg _ hsame.display).trans h.header
  footer := (congrArg _ hsame.display).trans h.footer
  headerColor := hsame.headerColor.trans h.headerColor
  footerColor := hsame.footerColor.trans h.footerColor
  timestamps := hsame.timestamps.trans h.timestamps
  capacity := (congrArg _ hsame.display).trans h.capacity
  contents := (congrArg _ hsame.display).trans h.contents
  prompt := hsame.prompt.trans h.prompt

theorem alike_updateConsoleSize (con : DisplayConsole) (window : Winsize) :
    Alike con (con.updateConsoleSize window).1 := by
  rw [updateConsoleSize_eq]
  exact ⟨rfl, rfl, rfl, rfl, rfl⟩

/-- `Refresh` changes the recorded size, the screen buffer and the flags, nothing else. -/
theorem alike_refresh (beyond : Bytes → Bytes) (con : DisplayConsole) (window window' : Winsize)
    (wrote : Option ℕ) : Alike con (con.refresh beyond window window' wrote).1 := by
  have hrerender : ∃ con₀, (con₀ = con ∨ con₀ = (con.updateConsoleSize window).1) ∧
      ((con.rerender beyond window window').1 = con₀ ∨
        (con.rerender beyond window window').1 = { con₀.renderScreenString beyond window' with
          mScreenBufferIndex := 0
          bIsScreenBufferRemain := true
          bIsScreenUpdated := false }) := by
    simp only [DisplayConsole.rerender]
    split_ifs
    · exact ⟨con, .inl rfl, .inr rfl⟩
    · exact ⟨con, .inl rfl, .inl rfl⟩
    · exact ⟨_, .inr rfl, .inr rfl⟩
    · exact ⟨_, .inr rfl, .inl rfl⟩
  obtain ⟨con₀, hcon₀, hre⟩ := hrerender
  have h₀ : Alike con con₀ := by
    rcases hcon₀ with rfl | rfl
    · exact ⟨rfl, rfl, rfl, rfl, rfl⟩
    · exact alike_updateConsoleSize con window
  have hre' : Alike con (con.rerender beyond window window').1 := by
    rcases hre with hre | hre <;> rw [hre]
    · exact h₀
    · rw [DisplayConsole.renderScreenString, updateConsoleSize_eq]
      exact ⟨h₀.display, h₀.headerColor, h₀.footerColor, h₀.timestamps, h₀.prompt⟩
  rw [DisplayConsole.refresh]
  rcases flush_cases (con.rerender beyond window window').1 wrote with
    ⟨-, heq⟩ | ⟨-, -, heq⟩ | ⟨n, -, -, -, heq⟩ | ⟨-, -, heq⟩ <;> rw [heq] <;>
    exact ⟨hre'.display, hre'.headerColor, hre'.footerColor, hre'.timestamps, hre'.prompt⟩

/-- **Every call changes the console as it changes the view.** -/
theorem depicts_step (h : Depicts con v) (c : ConsoleCall) :
    Depicts (con.step beyond c).1 (v.next c) := by
  cases c with
  | pushContent content color localTime =>
    obtain ⟨hcap, hcont⟩ := contents_eq_rtake h.capacity h.contents
      (c := .pushContent content color localTime) (by simp)
    have hkeep : (con.mDisplay.pushContent content color localTime).mHeader = v.header ∧
        (con.mDisplay.pushContent content color localTime).mFooter = v.footer := by
      rw [DisplayBuffer.pushContent]
      split_ifs <;> exact ⟨h.header, h.footer⟩
    exact ⟨hkeep.1, hkeep.2, h.headerColor, h.footerColor, h.timestamps, hcap, hcont, h.prompt⟩
  | clearContent =>
    exact ⟨h.header, h.footer, h.headerColor, h.footerColor, h.timestamps, h.capacity,
      (List.rtake_nil _).symm, h.prompt⟩
  | setHeader str =>
    exact ⟨rfl, h.footer, h.headerColor, h.footerColor, h.timestamps, h.capacity, h.contents,
      h.prompt⟩
  | setFooter str =>
    exact ⟨h.header, rfl, h.headerColor, h.footerColor, h.timestamps, h.capacity, h.contents,
      h.prompt⟩
  | setHeaderColor color =>
    exact ⟨h.header, h.footer, rfl, h.footerColor, h.timestamps, h.capacity, h.contents, h.prompt⟩
  | setFooterColor color =>
    exact ⟨h.header, h.footer, h.headerColor, rfl, h.timestamps, h.capacity, h.contents, h.prompt⟩
  | setTimestamp enable =>
    exact ⟨h.header, h.footer, h.headerColor, h.footerColor, rfl, h.capacity, h.contents, h.prompt⟩
  | pushCharPrompt ch stdin =>
    show Depicts (con.pushCharPrompt ch stdin).1 { v with prompt := View.typedKey v.prompt ch }
    rcases pushCharPrompt_cases con ch stdin with ⟨hend, heq⟩ | ⟨hend, hesc, heq⟩ | ⟨rfl, heq⟩ <;>
      rw [heq, View.typedKey]
    · rw [if_pos hend]
      exact ⟨h.header, h.footer, h.headerColor, h.footerColor, h.timestamps, h.capacity,
        h.contents, rfl⟩
    · have hother : ¬ endsLine ch = true := by
        rw [hend]
        exact Bool.false_ne_true
      rw [if_neg hother, if_neg hesc, ← h.prompt]
      exact ⟨h.header, h.footer, h.headerColor, h.footerColor, h.timestamps, h.capacity,
        h.contents, rfl⟩
    · rw [if_neg (by decide), if_neg (by decide), if_pos rfl]
      exact h.alike ⟨rfl, rfl, rfl, rfl, rfl⟩
  | pollPromptQueue prompt =>
    show Depicts (con.pollPromptQueue prompt).1 v
    rw [DisplayConsole.pollPromptQueue]
    split
    · exact h
    · exact h.alike ⟨rfl, rfl, rfl, rfl, rfl⟩
  | refresh window window' wrote => exact h.alike (alike_refresh beyond con window window' wrote)

/-! ### What is rendered, as control sequences and text -/

theorem mANSIColors_eq (color : eColor) : mANSIColors color = sequence (View.codes color) 0x6D := by
  cases color <;> rfl

theorem cursorToLine_eq (n : ℕ) : DisplayConsole.cursorToLine n = sequence [n, 1] 0x48 := by
  have hpos : ¬ ((n : ℤ) < 0) := by omega
  have hparams : paramText [n, 1] = Numerals.numeral n ++ 0x3B :: [0x31] := rfl
  rw [DisplayConsole.cursorToLine, decimal, if_neg hpos, Int.natAbs_natCast, Terminal.sequence,
    hparams, List.append_assoc, List.append_assoc]
  rfl

/-- A content row as texts with their codes. -/
def View.contentSpans (v : View) (cols : ℕ) (content : Content) : List Span :=
  (if v.timestamps then
    [([], content.TimeStamp ++ chars [' ']), (View.codes .BrightBlue, chars ['-']),
      (View.codes .Default, chars ['!']), (View.codes .BrightBlue, chars ['-']),
      (View.codes .Default, chars [' '])]
  else []) ++
    [(View.codes content.Color, View.abridge (cols - v.stampWidth) content.String)]

theorem spanCells_contentSpans (v : View) (cols : ℕ) (content : Content) :
    spanCells .plain (v.contentSpans cols content) = v.contentLine cols content := by
  rw [View.contentSpans, View.contentLine]
  cases v.timestamps with
  | false =>
    show cellsOf _ _ ++ [] = [] ++ cellsOf _ _
    rw [List.append_nil, List.nil_append]
  | true =>
    show cellsOf _ _ ++ (cellsOf _ _ ++ (cellsOf _ _ ++ (cellsOf _ _ ++ (cellsOf _ _ ++
      (cellsOf _ _ ++ []))))) = _
    simp only [List.append_nil, if_true, List.append_assoc]
    rfl

theorem length_abridge {avail : ℕ} (h : 3 ≤ avail) (text : Bytes) :
    (View.abridge avail text).length ≤ avail := by
  rw [View.abridge]
  split_ifs with hfits
  · exact hfits
  · rw [List.length_append, List.length_take]
    show _ + 3 ≤ _
    omega

theorem printable_abridge (avail : ℕ) (h : PrintableText text) :
    PrintableText (View.abridge avail text) := by
  rw [View.abridge]
  split_ifs
  · exact h
  · have hdots : PrintableText (chars ['.', '.', '.']) := by decide
    exact (h.of_subset (List.take_subset _ _)).append hdots

/-- A content row is no longer than the line. -/
theorem length_contentSpans (hcols : 18 ≤ cols) {content : Content}
    (hstamp : content.TimeStamp.length = 5) :
    ((v.contentSpans cols content).flatMap Prod.snd).length ≤ cols := by
  rw [View.contentSpans, View.stampWidth]
  cases v.timestamps with
  | false =>
    have hle := length_abridge (show 3 ≤ cols - 0 by omega) content.String
    show (View.abridge (cols - 0) content.String ++ []).length ≤ cols
    rw [List.append_nil]
    omega
  | true =>
    have hle := length_abridge (show 3 ≤ cols - 10 by omega) content.String
    show (content.TimeStamp ++ chars [' '] ++ ([45] ++ ([33] ++ ([45] ++ ([32] ++
      (View.abridge (cols - 10) content.String ++ [])))))).length ≤ cols
    simp only [List.length_append, List.length_singleton, List.length_nil, hstamp]
    show 5 + 1 + _ ≤ cols
    omega

theorem printable_contentSpans {content : Content} (hstring : PrintableText content.String)
    (hstamp : PrintableText content.TimeStamp) :
    ∀ span ∈ v.contentSpans cols content, PrintableText span.2 := by
  have habridge := printable_abridge (cols - v.stampWidth) hstring
  have hspace : PrintableText (chars [' ']) := by decide
  have hdash : PrintableText (chars ['-']) := by decide
  have hmark : PrintableText (chars ['!']) := by decide
  intro span hspan
  rcases List.mem_append.mp hspan with hspan | hspan
  · cases hts : v.timestamps with
    | false =>
      rw [hts] at hspan
      exact absurd hspan List.not_mem_nil
    | true =>
      rw [hts, if_pos rfl] at hspan
      simp only [List.mem_cons, List.not_mem_nil, or_false] at hspan
      rcases hspan with rfl | rfl | rfl | rfl | rfl
      · exact hstamp.append hspace
      · exact hdash
      · exact hmark
      · exact hdash
      · exact hspace
  · rw [List.mem_singleton.mp hspan]
    exact habridge

/-- What the two loops of `appendContent` make of a printable text. -/
theorem abridge_eq (beyond : Bytes → Bytes) (avail : ℕ) (h : PrintableText text) :
    (strlenMultiByte beyond text).1 = text.length ∧
      (¬ text.length ≤ avail → (copyLoop (cStr beyond text) (avail - 3) 0).1 =
        text.take (avail - 3)) := by
  have hcs : ∀ c ∈ text.map fun b => [b], IsChar c := by
    intro c hc
    obtain ⟨b, hb, rfl⟩ := List.mem_map.mp hc
    exact (IsTextChar.ascii (h b hb).1 (h b hb).2).isChar
  have hflatten : ∀ l : Bytes, (l.map fun b => [b]).flatten = l := by
    intro l
    rw [← List.flatMap_def]
    exact List.flatMap_singleton' l
  have hs : text = (text.map fun b => [b]).flatten ++ [] := by rw [hflatten, List.append_nil]
  constructor
  · rw [strlenMultiByte_chars beyond hcs hs (.inl rfl), List.length_map]
  · intro hlong
    have hle : avail - 3 ≤ (text.map fun b => [b]).length := by
      rw [List.length_map]
      omega
    rw [copyLoop_string beyond hcs hs hle, ← List.map_take, hflatten]

theorem contentRow_spans (h : Depicts con v) (hwidth : 18 ≤ con.mConsoleWidth)
    {content : Content} (hstring : PrintableText content.String) :
    con.contentRow beyond content =
      encode (v.contentSpans con.mConsoleWidth content) ++ [10] ++ sequence [0] 0x6D := by
  have hstamp : con.timestampWidth = v.stampWidth := by
    rw [DisplayConsole.timestampWidth, View.stampWidth, h.timestamps]
  have hle := timestampWidth_le con
  obtain ⟨hcount, hcopy⟩ := abridge_eq beyond (con.mConsoleWidth - v.stampWidth) hstring
  have htext : (if (strlenMultiByte beyond content.String).1 + con.timestampWidth >
      con.mConsoleWidth then
        (copyLoop (cStr beyond content.String) (con.mConsoleWidth - con.timestampWidth - 3) 0).1 ++
          chars ['.', '.', '.']
      else content.String) =
        View.abridge (con.mConsoleWidth - v.stampWidth) content.String := by
    rw [View.abridge, hcount]
    by_cases hfits : content.String.length ≤ con.mConsoleWidth - v.stampWidth
    · rw [if_pos hfits, if_neg (by omega)]
    · rw [if_neg hfits, if_pos (by omega), hstamp, hcopy hfits]
  have hne : ∀ color, View.codes color ≠ [] := by
    intro color
    cases color <;> exact List.cons_ne_nil _ _
  have hreset : sequence (View.codes .Default) 0x6D = sequence [0] 0x6D := rfl
  have hnewline : chars ['\n'] = [10] := rfl
  rw [contentRow_eq beyond hwidth, htext, View.contentSpans, stamp, h.timestamps]
  cases v.timestamps <;>
    simp [encode, hne, mANSIColors_eq, hreset, hnewline, List.append_assoc]

/-! ### The terminal that read it -/

/-- A header or footer row on an empty line. -/
theorem typed_bar {empty : Cell} {ls : ℕ → List Cell} {row : ℕ} {rendition : Rendition}
    (color : eColor) (htext : PrintableText text) (hlen : text.length ≤ cols)
    (hrow : row + 1 < rows) (hempty : ls row = []) (hnext : ls (row + 1) = []) :
    (typed rows cols empty ls row rendition).feed fill
        (mANSIColors color ++ text ++ mANSIColors .Default ++ chars ['\n']) =
      typed rows cols empty (Function.update ls row (View.colored rendition color text))
        (row + 1) .plain := by
  have hne : View.codes color ≠ [] := by
    cases color <;> exact List.cons_ne_nil _ _
  have hreset : (rendition.render (View.codes color)).render (View.codes .Default) = .plain := rfl
  have hbelow : Function.update ls row (View.colored rendition color text) (row + 1) = [] := by
    rw [Function.update_of_ne (by omega), hnext]
  have hfits : (ls row).length + text.length ≤ cols := by
    rw [hempty, List.length_nil]
    omega
  have htyped : (typed rows cols empty ls row (rendition.render (View.codes color))).feed
      fill text = typed rows cols empty (Function.update ls row (View.colored rendition color text))
        row (rendition.render (View.codes color)) := by
    rw [typed_text htext hfits, hempty]
    rfl
  rw [mANSIColors_eq, mANSIColors_eq, feed_append, feed_append, feed_append,
    typed_rendition _ hne, htyped, typed_rendition (View.codes .Default) (List.cons_ne_nil _ _),
    hreset]
  exact typed_newline hrow hbelow

/-- A header or footer text is printable if it was. -/
theorem printable_rowText (hcols : 1 ≤ cols) (h : PrintableText text) :
    PrintableText (rowText cols text) := by
  intro b hb
  rcases mem_rowText hcols b hb with rfl | hb
  · decide
  · exact h b (List.mem_of_mem_take hb)

/-- The lines of a view, as they are written one after another. -/
theorem lines_written (v : View) (hrows : 8 ≤ rows) (hcols : 18 ≤ cols) (before : Rendition) :
    Function.update (Function.update (inserted
        (Function.update (fun _ => []) 0 (View.colored before v.headerColor
          (rowText cols v.header))) 1 ((v.latest rows).map (v.contentLine cols)))
        (rows - 2) (View.colored .plain v.footerColor (rowText cols v.footer)))
        (rows - 1) (cellsOf .plain (DisplayConsole.promptMarker ++ v.prompt.rtake (cols - 11))) =
      v.lines rows cols before := by
  funext r
  have hlatest : ((v.latest rows).map (v.contentLine cols)).length ≤ rows - 3 := by
    rw [List.length_map, View.latest, length_rtake]
    omega
  rw [View.lines, if_neg (by omega)]
  by_cases hlast : r = rows - 1
  · rw [if_neg (by omega), if_neg (by omega), if_pos hlast, hlast, Function.update_self]
    rfl
  rw [Function.update_of_ne hlast, if_neg hlast]
  by_cases hfooter : r = rows - 2
  · rw [if_neg (by omega), if_pos hfooter, hfooter, Function.update_self]
  rw [Function.update_of_ne hfooter, if_neg hfooter, inserted]
  by_cases hheader : r = 0
  · rw [if_neg (by omega), if_pos hheader, hheader, Function.update_self]
  rw [if_neg hheader, Function.update_of_ne hheader]
  by_cases hin : r < 1 + ((v.latest rows).map (v.contentLine cols)).length
  · rw [if_pos ⟨by omega, hin⟩]
  · rw [if_neg (fun h => hin h.2), List.getD_eq_default _ _ (by omega)]

/-- The content rows on empty lines. -/
theorem typed_contents (h : Depicts con v) (hv : v.Plain) (hcols : con.mConsoleWidth = cols)
    (hwidth : 18 ≤ cols) (hheight : 8 ≤ rows) {empty : Cell} {ls : ℕ → List Cell}
    (hempty : ∀ r, 1 ≤ r → ls r = []) :
    (typed rows cols empty ls 1 .plain).feed fill
        ((v.latest rows).flatMap (con.contentRow beyond)) =
      typed rows cols empty (inserted ls 1 ((v.latest rows).map (v.contentLine cols)))
        (1 + (v.latest rows).length) .plain := by
  have hplain : ∀ content ∈ v.latest rows, PrintableText content.String ∧
      PrintableText content.TimeStamp ∧ content.TimeStamp.length = 5 :=
    fun content hcontent => hv.contents content ((rtake_suffix _ _).subset hcontent)
  set spanss := (v.latest rows).map (v.contentSpans cols) with hspanss
  have hrows : (v.latest rows).flatMap (con.contentRow beyond) =
      spanss.flatMap fun spans => encode spans ++ [10] ++ sequence [0] 0x6D := by
    rw [hspanss, List.flatMap_map]
    refine List.flatMap_congr fun content hcontent => ?_
    rw [contentRow_spans h (by rw [hcols]; exact hwidth) (hplain content hcontent).1, hcols]
  have htext : ∀ spans ∈ spanss, ∀ span ∈ spans, ∀ b ∈ span.2, Printable b := by
    intro spans hspans
    obtain ⟨content, hcontent, rfl⟩ := List.mem_map.mp hspans
    exact printable_contentSpans (hplain content hcontent).1 (hplain content hcontent).2.1
  have hfits : ∀ spans ∈ spanss, (spans.flatMap Prod.snd).length ≤ cols := by
    intro spans hspans
    obtain ⟨content, hcontent, rfl⟩ := List.mem_map.mp hspans
    exact length_contentSpans hwidth (hplain content hcontent).2.2
  have hlen : spanss.length = (v.latest rows).length := by rw [hspanss, List.length_map]
  have hlatest : (v.latest rows).length ≤ rows - 3 := by
    rw [View.latest, length_rtake]
    omega
  have hcells : spanss.map (spanCells .plain) = (v.latest rows).map (v.contentLine cols) := by
    rw [hspanss, List.map_map]
    exact List.map_congr_left fun content _ => spanCells_contentSpans v cols content
  rw [hrows, typed_lines htext hfits (by omega) hempty, hcells, hlen]

/-- The prompt row on an empty line. -/
theorem typed_prompt (hv : v.Plain) (hwidth : 18 ≤ cols) {empty : Cell} {ls : ℕ → List Cell}
    {row : ℕ} (hempty : ls row = []) :
    (typed rows cols empty ls row .plain).feed fill
        (DisplayConsole.promptMarker ++ v.prompt.rtake (cols - 11)) =
      typed rows cols empty (Function.update ls row
        (cellsOf .plain (DisplayConsole.promptMarker ++ v.prompt.rtake (cols - 11)))) row
        .plain := by
  have hmarker : PrintableText DisplayConsole.promptMarker := by decide
  have htext := hmarker.append (hv.prompt.of_subset (rtake_suffix v.prompt (cols - 11)).subset)
  have hfits : (ls row).length +
      (DisplayConsole.promptMarker ++ v.prompt.rtake (cols - 11)).length ≤ cols := by
    rw [hempty, List.length_append, length_rtake]
    show 0 + (11 + _) ≤ _
    omega
  rw [typed_text htext hfits, hempty, List.nil_append]

/-- **The rendered string draws the view**, on a terminal of the recorded size. -/
theorem feed_screenString (h : Depicts con v) (hv : v.Plain) (t : Screen)
    (hrows : con.mConsoleHeight = t.rows) (hcols : con.mConsoleWidth = t.cols)
    (hint : t.rows < 2 ^ 31) :
    t.feed fill (con.screenString beyond) = v.drawn fill t.rows t.cols t.rendition := by
  have hclear : t.feed fill clearScreen =
      typed t.rows t.cols (t.blank fill) (fun _ => []) 0 t.rendition := feed_clear t
  by_cases hsmall : t.rows < 8 ∨ t.cols < 18
  · have hlines : v.lines t.rows t.cols t.rendition = fun _ => [] := by
      funext r
      rw [View.lines, if_pos hsmall]
    rw [screenString_small (by rw [hrows, hcols]; exact hsmall), hclear, View.drawn, hlines,
      if_pos hsmall, if_pos hsmall]
    rfl
  have hheight : 8 ≤ t.rows := by omega
  have hwidth : 18 ≤ t.cols := by omega
  -- the latest contents of the view are those of the buffer
  have hbuffer : con.mDisplay.mContentBuffer.rtake (t.rows - 3) = v.latest t.rows := by
    rw [h.contents, rtake_rtake, View.latest, min_comm]
  have hlatest : (v.latest t.rows).length ≤ t.rows - 3 := by
    rw [View.latest, length_rtake]
    omega
  set withHeader : ℕ → List Cell := Function.update (fun _ => []) 0
    (View.colored t.rendition v.headerColor (rowText t.cols v.header)) with hwithHeader
  set withContents : ℕ → List Cell :=
    inserted withHeader 1 ((v.latest t.rows).map (v.contentLine t.cols)) with hwithContents
  set withFooter : ℕ → List Cell := Function.update withContents (t.rows - 2)
    (View.colored .plain v.footerColor (rowText t.cols v.footer)) with hwithFooter
  have hbelowHeader : ∀ r, 1 ≤ r → withHeader r = [] := by
    intro r hr
    rw [hwithHeader, Function.update_of_ne (by omega)]
  have hbelowContents : ∀ r, t.rows - 2 ≤ r → withContents r = [] := by
    intro r hr
    rw [hwithContents, inserted, List.length_map, if_neg (by omega)]
    exact hbelowHeader r (by omega)
  have hlastLine : withFooter (t.rows - 1) = [] := by
    rw [hwithFooter, Function.update_of_ne (by omega)]
    exact hbelowContents _ (by omega)
  -- row by row, what is written so far
  have hafterHeader : (typed t.rows t.cols (t.blank fill) (fun _ => []) 0 t.rendition).feed fill
      (mANSIColors v.headerColor ++ rowText t.cols v.header ++ mANSIColors .Default ++
        chars ['\n']) = typed t.rows t.cols (t.blank fill) withHeader 1 .plain :=
    typed_bar v.headerColor (printable_rowText (by omega) hv.header) (length_rowText _ _).le
      (by omega) rfl rfl
  have hafterContents : (typed t.rows t.cols (t.blank fill) withHeader 1 .plain).feed fill
      ((v.latest t.rows).flatMap (con.contentRow beyond)) =
        typed t.rows t.cols (t.blank fill) withContents (1 + (v.latest t.rows).length) .plain :=
    typed_contents h hv hcols hwidth hheight hbelowHeader
  have hfooterLine : (typed t.rows t.cols (t.blank fill) withContents
      (1 + (v.latest t.rows).length) .plain).feed fill (sequence [t.rows - 1, 1] 0x48) =
        typed t.rows t.cols (t.blank fill) withContents (t.rows - 2) .plain :=
    typed_line ⟨by omega, by omega⟩ (hbelowContents _ (by omega))
  have hafterFooter : (typed t.rows t.cols (t.blank fill) withContents (t.rows - 2) .plain).feed
      fill (mANSIColors v.footerColor ++ rowText t.cols v.footer ++ mANSIColors .Default ++
        chars ['\n']) =
        typed t.rows t.cols (t.blank fill) withFooter (t.rows - 2 + 1) .plain :=
    typed_bar v.footerColor (printable_rowText (by omega) hv.footer) (length_rowText _ _).le
      (by omega) (hbelowContents _ le_rfl) (hbelowContents _ (by omega))
  have hpromptLine : (typed t.rows t.cols (t.blank fill) withFooter (t.rows - 2 + 1) .plain).feed
      fill (sequence [t.rows, 1] 0x48) =
        typed t.rows t.cols (t.blank fill) withFooter (t.rows - 1) .plain :=
    typed_line ⟨by omega, le_rfl⟩ hlastLine
  have hafterPrompt : (typed t.rows t.cols (t.blank fill) withFooter (t.rows - 1) .plain).feed
      fill (DisplayConsole.promptMarker ++ v.prompt.rtake (t.cols - 11)) =
        typed t.rows t.cols (t.blank fill) (v.lines t.rows t.cols t.rendition) (t.rows - 1)
          .plain := by
    rw [typed_prompt hv hwidth hlastLine, ← lines_written v hheight hwidth]
  rw [screenString_rows (by omega) (by omega) (by omega), hrows, hcols, hbuffer,
    h.header, h.footer, h.headerColor, h.footerColor, h.prompt, cursorToLine_eq, cursorToLine_eq,
    List.append_assoc _ DisplayConsole.promptMarker]
  generalize mANSIColors v.headerColor ++ rowText t.cols v.header ++ mANSIColors .Default ++
    chars ['\n'] = headerRow at hafterHeader ⊢
  generalize mANSIColors v.footerColor ++ rowText t.cols v.footer ++ mANSIColors .Default ++
    chars ['\n'] = footerRow at hafterFooter ⊢
  generalize DisplayConsole.promptMarker ++ v.prompt.rtake (t.cols - 11) = promptRow
    at hafterPrompt ⊢
  rw [feed_append, feed_append, feed_append, feed_append, feed_append, feed_append, hclear,
    hafterHeader, hafterContents, hfooterLine, hafterFooter, hpromptLine, hafterPrompt, View.drawn,
    if_neg hsmall, if_neg hsmall]
  rfl

/-! ### What stays of the rendition before -/

theorem length_contentLine (hcols : 18 ≤ cols) {content : Content}
    (hstamp : content.TimeStamp.length = 5) : (v.contentLine cols content).length ≤ cols := by
  rw [← spanCells_contentSpans, length_spanCells]
  exact length_contentSpans hcols hstamp

/-- No line of a view is longer than the screen is wide. -/
theorem length_lines (hv : v.Plain) (before : Rendition) (r : ℕ) :
    (v.lines rows cols before r).length ≤ cols := by
  have hbar : ∀ (before : Rendition) (color : eColor) (text : Bytes),
      (View.colored before color (rowText cols text)).length = cols := fun before color text =>
    (List.length_map _).trans (length_rowText cols text)
  rw [View.lines]
  split_ifs with hsmall hheader hfooter hprompt
  · exact Nat.zero_le _
  · exact (hbar _ _ _).le
  · exact (hbar _ _ _).le
  · rw [View.colored, cellsOf, List.length_map, List.length_append, length_rtake]
    show 11 + _ ≤ cols
    omega
  · rcases Nat.lt_or_ge (r - 1) (v.latest rows).length with hin | hout
    · rw [List.getD_eq_getElem _ _ (by rwa [List.length_map]), List.getElem_map]
      have hmem := (rtake_suffix _ _).subset (List.getElem_mem hin)
      exact length_contentLine (by omega) (hv.contents _ hmem).2.2
    · rw [List.getD_eq_default _ _ (by rwa [List.length_map])]
      exact Nat.zero_le _

/-- The rendition before changes the header alone, if its colour lets it through. -/
theorem lines_eq_iff (before : Rendition) :
    (∀ r < rows, v.lines rows cols before r = v.lines rows cols .plain r) ↔
      (8 ≤ rows ∧ 18 ≤ cols →
        before.render (View.codes v.headerColor) =
          Rendition.plain.render (View.codes v.headerColor)) := by
  by_cases hsmall : rows < 8 ∨ cols < 18
  · refine iff_of_true (fun r _ => ?_) fun hlarge => by omega
    rw [View.lines, View.lines, if_pos hsmall, if_pos hsmall]
  have hheader : ∀ before : Rendition, v.lines rows cols before 0 =
      View.colored before v.headerColor (rowText cols v.header) := by
    intro before
    rw [View.lines, if_neg hsmall, if_pos rfl]
  constructor
  · intro h _
    have hfirst := h 0 (by omega)
    rw [hheader, hheader] at hfirst
    have hne : rowText cols v.header ≠ [] := by
      rw [← List.length_pos_iff, length_rowText]
      omega
    obtain ⟨b, text, htext⟩ := List.exists_cons_of_ne_nil hne
    rw [htext] at hfirst
    exact congrArg Cell.rendition (List.cons.inj hfirst).1
  · intro h r _
    by_cases hr : r = 0
    · rw [hr, hheader, hheader, View.colored, View.colored, h (by omega)]
    · simp only [View.lines, if_neg hsmall, if_neg hr]

/-- **What is to be seen of the rendition before**: the picture looks as on a terminal
without a rendition exactly if the view hides it. -/
theorem drawn_looks_iff (hv : v.Plain) (before : Rendition) :
    (v.drawn fill rows cols before).Looks (v.drawn fill rows cols .plain) ↔
      v.Hides fill rows cols before := by
  have hlen : ∀ r, (v.lines rows cols before r).length =
      (v.lines rows cols .plain r).length := by
    intro r
    simp only [View.lines]
    split_ifs
    · rfl
    · rw [View.colored, View.colored, cellsOf, cellsOf, List.length_map, List.length_map]
    · rfl
    · rfl
    · rfl
  rw [View.drawn, View.drawn, typed_looks_iff hlen fun r _ => length_lines hv before r,
    lines_eq_iff, View.Hides, Cell.mk.injEq]
  simp only [true_and]

/-! ### The bytes that are rendered -/

theorem printable_numeral (n : ℕ) : PrintableText (Numerals.numeral n) := by
  intro b hb
  have hdigit := Numerals.isDigit_iff.mp (Numerals.isDigit_numeral n b hb)
  rw [Printable, UInt8.le_iff_toNat_le, UInt8.le_iff_toNat_le]
  show 32 ≤ b.toNat ∧ b.toNat ≤ 126
  omega

theorem printable_paramText (params : List ℕ) : PrintableText (paramText params) := by
  induction params with
  | nil => exact fun b hb => absurd hb List.not_mem_nil
  | cons n params ih =>
    rcases params with _ | ⟨m, params⟩
    · exact printable_numeral n
    · have hsemicolon : PrintableText [0x3B] := by decide
      exact (printable_numeral n).append (hsemicolon.append ih)

/-- `ESC`, '\n' or a printable character. -/
def Displayed (bytes : Bytes) : Prop := ∀ b ∈ bytes, b = ESC ∨ b = 10 ∨ Printable b

theorem PrintableText.displayed (h : PrintableText text) : Displayed text :=
  fun b hb => .inr (.inr (h b hb))

theorem Displayed.append {bytes bytes' : Bytes} (h : Displayed bytes) (h' : Displayed bytes') :
    Displayed (bytes ++ bytes') := by
  intro b hb
  rcases List.mem_append.mp hb with hb | hb
  · exact h b hb
  · exact h' b hb

theorem displayed_sequence (params : List ℕ) {final : UInt8} (hfinal : Printable final) :
    Displayed (sequence params final) := by
  have hopen : Displayed [27, 0x5B] := by
    intro b hb
    rcases List.mem_cons.mp hb with rfl | hb
    · exact .inl rfl
    · rw [List.mem_singleton.mp hb]
      exact .inr (.inr (by decide))
  have hlast : PrintableText [final] := by
    intro b hb
    rw [List.mem_singleton.mp hb]
    exact hfinal
  exact hopen.append ((printable_paramText params).append hlast).displayed

theorem displayed_bar (color : eColor) (hcols : 1 ≤ cols) (h : PrintableText text) :
    Displayed (mANSIColors color ++ rowText cols text ++ mANSIColors .Default ++ chars ['\n']) := by
  have hnewline : Displayed (chars ['\n']) := by
    intro b hb
    rw [List.mem_singleton.mp hb]
    exact .inr (.inl rfl)
  rw [mANSIColors_eq, mANSIColors_eq]
  exact (((displayed_sequence _ (by decide)).append (printable_rowText hcols h).displayed).append
    (displayed_sequence _ (by decide))).append hnewline

theorem displayed_contentRow (h : Depicts con v) (hwidth : 18 ≤ con.mConsoleWidth)
    {content : Content} (hstring : PrintableText content.String)
    (hstamp : PrintableText content.TimeStamp) : Displayed (con.contentRow beyond content) := by
  have hnewline : Displayed [10] := by
    intro b hb
    rw [List.mem_singleton.mp hb]
    exact .inr (.inl rfl)
  have hspans : Displayed (encode (v.contentSpans con.mConsoleWidth content)) := by
    intro b hb
    obtain ⟨span, hspan, hb⟩ := List.mem_flatMap.mp hb
    rcases List.mem_append.mp hb with hb | hb
    · split_ifs at hb
      · exact absurd hb List.not_mem_nil
      · exact displayed_sequence span.1 (by decide) b hb
    · exact (printable_contentSpans hstring hstamp span hspan).displayed b hb
  rw [contentRow_spans h hwidth hstring]
  exact (hspans.append hnewline).append (displayed_sequence _ (by decide))

/-- All bytes of the rendered string are displayed; in particular it holds no NUL. -/
theorem displayed_screenString (h : Depicts con v) (hv : v.Plain)
    (hint : con.mConsoleHeight < 2 ^ 31) : Displayed (con.screenString beyond) := by
  have hclear : Displayed clearScreen :=
    (displayed_sequence [] (show Printable 0x48 by decide)).append
      (displayed_sequence [] (show Printable 0x4A by decide))
  by_cases hsmall : con.mConsoleHeight < 8 ∨ con.mConsoleWidth < 18
  · rw [screenString_small hsmall]
    exact hclear
  have hmarker : PrintableText DisplayConsole.promptMarker := by decide
  have hcontents : Displayed ((con.mDisplay.mContentBuffer.rtake (con.mConsoleHeight - 3)).flatMap
      (con.contentRow beyond)) := by
    intro b hb
    obtain ⟨content, hcontent, hb⟩ := List.mem_flatMap.mp hb
    have hmem := (rtake_suffix _ _).subset hcontent
    rw [h.contents] at hmem
    obtain ⟨hstring, hstamp, -⟩ := hv.contents content ((rtake_suffix _ _).subset hmem)
    exact displayed_contentRow h (by omega) hstring hstamp b hb
  rw [screenString_rows (by omega) (by omega) hint, h.header, h.footer, h.headerColor,
    h.footerColor, h.prompt, cursorToLine_eq, cursorToLine_eq]
  exact ((((((hclear.append (displayed_bar _ (by omega) hv.header)).append hcontents).append
    (displayed_sequence _ (by decide))).append (displayed_bar _ (by omega) hv.footer)).append
    (displayed_sequence _ (by decide))).append hmarker.displayed).append
    (hv.prompt.of_subset (rtake_suffix _ _).subset).displayed

theorem clearScreen_isPrefix (beyond : Bytes → Bytes) (hint : con.mConsoleHeight < 2 ^ 31) :
    clearScreen <+: con.screenString beyond := by
  by_cases hsmall : con.mConsoleHeight < 8 ∨ con.mConsoleWidth < 18
  · rw [screenString_small hsmall]
  · rw [screenString_rows (by omega) (by omega) hint]
    simp only [List.append_assoc]
    exact List.prefix_append _ _

theorem Displayed.zero_notMem {bytes : Bytes} (h : Displayed bytes) : 0 ∉ bytes := by
  intro hmem
  rcases h 0 hmem with hz | hz | hz
  · exact absurd hz (by decide)
  · exact absurd hz (by decide)
  · exact absurd hz (by decide)

/-! ### After a run -/

/-- The view after a run of calls. -/
def View.after (v : View) (calls : List ConsoleCall) : View := calls.foldl View.next v

/-- A new console depicts a new view. -/
theorem depicts_new (header footer : Bytes) (headerColor footerColor : eColor)
    (width height : ℕ) :
    Depicts (DisplayConsole.new header footer headerColor footerColor width height)
      (View.new header footer headerColor footerColor) :=
  ⟨rfl, rfl, rfl, rfl, rfl, rfl, (List.rtake_nil _).symm, rfl⟩

theorem plain_new {header footer : Bytes} (hheader : PrintableText header)
    (hfooter : PrintableText footer) (headerColor footerColor : eColor) :
    (View.new header footer headerColor footerColor).Plain :=
  ⟨hheader, hfooter, fun _ hentry => absurd hentry List.not_mem_nil,
    fun _ hb => absurd hb List.not_mem_nil⟩

theorem depicts_run (beyond : Bytes → Bytes) (h : Depicts con v) (hv : v.Plain)
    {calls : List ConsoleCall} (hcalls : ∀ c ∈ calls, c.Plain) :
    Depicts (final (DisplayConsole.step beyond) con calls) (v.after calls) ∧
      (v.after calls).Plain := by
  induction calls generalizing con v with
  | nil => exact ⟨h, hv⟩
  | cons c calls ih =>
    obtain ⟨hc, hrest⟩ := List.forall_mem_cons.mp hcalls
    exact ih (depicts_step h c) (plain_next hv hc) hrest

/-- **The rendered string shows what the calls said.**  After every run of calls with
printable texts, whatever the sizes and writes were, and for every size of the window: a
terminal of that size reads the rendered string and is then the picture of the view in
the rendition that it had, whatever was on it, wherever its cursor was, in the middle of
whatever control sequence.  It looks as if it had had no rendition exactly if the view
hides the one it had. -/
theorem screen_drawn (beyond : Bytes → Bytes) (fill : Rendition → Rendition) {header footer : Bytes}
    (headerColor footerColor : eColor) (width₀ height₀ : ℕ) {calls : List ConsoleCall}
    {window : Winsize} {t : Screen} (hheader : PrintableText header)
    (hfooter : PrintableText footer) (hcalls : ∀ c ∈ calls, c.Plain)
    (hrows : t.rows = window.ws_row.toNat) (hcols : t.cols = window.ws_col.toNat) :
    let start := DisplayConsole.new header footer headerColor footerColor width₀ height₀
    let con := final (DisplayConsole.step beyond) start calls
    let v := (View.new header footer headerColor footerColor).after calls
    let screen := t.feed fill (con.renderScreenString beyond window).mScreenBuffer
    screen = v.drawn fill t.rows t.cols t.rendition ∧
      (screen.Looks (v.drawn fill t.rows t.cols .plain) ↔
        v.Hides fill t.rows t.cols t.rendition) := by
  intro start con v screen
  obtain ⟨hdepicts, hplain⟩ := depicts_run beyond
    (depicts_new header footer headerColor footerColor width₀ height₀)
    (plain_new hheader hfooter headerColor footerColor) hcalls
  have hint : t.rows < 2 ^ 31 := by
    rw [hrows]
    exact lt_trans (UInt16.toNat_lt window.ws_row) (by decide)
  have hsized := updateConsoleSize_eq con window
  have hdrawn : screen = v.drawn fill t.rows t.cols t.rendition :=
    feed_screenString (hdepicts.alike (alike_updateConsoleSize con window)) hplain t
      (by rw [hsized, hrows]) (by rw [hsized, hcols]) hint
  refine ⟨hdrawn, ?_⟩
  rw [hdrawn]
  exact drawn_looks_iff hplain t.rendition

/-- A content, a footer and a prompt, read by a terminal that was left in the middle of a
control sequence, in red. -/
theorem screen_drawn_midway :
    let t : Screen := ⟨8, 18, fun _ _ => ⟨88, .plain⟩, 3, 5, ⟨none, some 41, true⟩, .csi [] 4⟩
    let calls : List ConsoleCall := [.pushContent [104, 105] .Green ⟨9, 5⟩, .setFooter [98],
      .pushCharPrompt 97 []]
    let start := DisplayConsole.new [71, 68, 70] [] .Cyan .Default 0 0
    let con := final (DisplayConsole.step fun _ => []) start calls
    let v := (View.new [71, 68, 70] [] .Cyan .Default).after calls
    let screen := t.feed id (con.renderScreenString (fun _ => []) ⟨8, 18⟩).mScreenBuffer
    screen = v.drawn id t.rows t.cols t.rendition ∧
      (screen.Looks (v.drawn id t.rows t.cols .plain) ↔ v.Hides id t.rows t.cols t.rendition) :=
  screen_drawn (fun _ => []) id .Cyan .Default 0 0 (by decide) (by decide) (by decide) rfl rfl

end Gdf
