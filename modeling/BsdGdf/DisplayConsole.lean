/-
The class `DisplayConsole`: a terminal screen with a header row, content rows, a footer
row and a prompt, rendered into a string of escape sequences that `Refresh` writes out
as far as the terminal takes it.

* `ioctl()`, `write()` and `getchar()` answer through arguments; `Refresh` also gives
  back what it did, in order.
* The reading loops go through a `char*` and may pass the terminator of a string;
  `beyond s` stands for the bytes that follow the terminator of `s` in memory, and
  everything is a function of it.  A `char` is signed, as on the platforms of the
  library.
* `mANSIColors` holds all colours from the constructor on, so it is a function.
* The terminal mode, which the constructor and the destructor switch, is not part of
  the object.
-/
import BsdGdf.DisplayBuffer
import Mathlib.Tactic.SplitIfs

namespace Gdf

/-- `ESC`. -/
def ESC : UInt8 := 27

/-- `mANSIColors`. -/
def mANSIColors : eColor → Bytes
  | .Default => ESC :: chars ['[', '0', 'm']
  | .Cyan => ESC :: chars ['[', '3', '6', 'm']
  | .Red => ESC :: chars ['[', '3', '1', 'm']
  | .Green => ESC :: chars ['[', '3', '2', 'm']
  | .BrightBlue => ESC :: chars ['[', '3', '4', ';', '1', 'm']
  | .WhiteCharRedBG => ESC :: chars ['[', '4', '1', ';', '3', '7', 'm']
  | .WhiteCharBlueBG => ESC :: chars ['[', '4', '4', ';', '3', '7', 'm']
  | .WhiteCharGrayBG => ESC :: chars ['[', '4', '7', ';', '3', '7', 'm']

/-- `struct winsize`. -/
structure Winsize where
  ws_row : UInt16
  ws_col : UInt16
  deriving DecidableEq, Repr

/-- What `Refresh` does: it renders, or it calls `write(1, handed)`, which fails or
accepts a number of bytes. -/
inductive ScreenAct
  | rendered
  | write (handed : Bytes) (ret : Option ℕ)
  deriving DecidableEq, Repr

/-- `class DisplayConsole`. -/
structure DisplayConsole where
  mDisplay : DisplayBuffer
  mHeaderColor : Bytes
  mFooterColor : Bytes
  bIsTimestampEnabled : Bool
  bIsFailed : Bool
  mPromptBuffer : Bytes
  mPromptQueue : List Bytes
  mConsoleWidth : ℕ
  mConsoleHeight : ℕ
  bIsScreenUpdated : Bool
  mScreenBuffer : Bytes
  mScreenBufferIndex : ℕ
  bIsScreenBufferRemain : Bool
  deriving DecidableEq, Repr

/-! ### Reading a string through its pointer -/

/-- `c_str[i] < 0` for a signed `char`. -/
def isNegative (b : UInt8) : Bool := 128 ≤ b

/-- `s.c_str()` as an array: the string, its terminator, and what follows. -/
def cStr (beyond : Bytes → Bytes) (s : Bytes) (i : ℕ) : UInt8 := (s ++ 0 :: beyond s).getD i 0

/-- The loop of `strlenMultiByte` from `index` on: what it adds to `res`, and the
indices it reads at. -/
def strlenLoop (c_str : ℕ → UInt8) : ℕ → ℕ → ℕ × List ℕ
  | 0, _ => (0, [])
  | fuel + 1, index =>
    if c_str index = 0 then
      (0, [index])
    else if isNegative (c_str index) then
      let rest := strlenLoop c_str fuel (index + 3)
      (rest.1 + 1, index :: rest.2)
    else
      let rest := strlenLoop c_str fuel (index + 1)
      (rest.1 + 1, index :: rest.2)

/-- `strlenMultiByte(str)`, with the indices it reads at. -/
def strlenMultiByte (beyond : Bytes → Bytes) (str : Bytes) : ℕ × List ℕ :=
  strlenLoop (cStr beyond str) (str.length + (beyond str).length + 2) 0

/-- The copying loop of `appendContent` from `strIndex` on, `n` characters long: what it
appends, and the indices it reads at. -/
def copyLoop (c_str : ℕ → UInt8) : ℕ → ℕ → Bytes × List ℕ
  | 0, _ => ([], [])
  | n + 1, strIndex =>
    if isNegative (c_str strIndex) then
      let rest := copyLoop c_str n (strIndex + 3)
      (c_str strIndex :: c_str (strIndex + 1) :: c_str (strIndex + 2) :: rest.1,
        strIndex :: (strIndex + 1) :: (strIndex + 2) :: rest.2)
    else
      let rest := copyLoop c_str n (strIndex + 1)
      (c_str strIndex :: rest.1, strIndex :: rest.2)

theorem cStr_of_le (beyond : Bytes → Bytes) (s : Bytes) {i : ℕ}
    (h : s.length + (beyond s).length + 1 ≤ i) : cStr beyond s i = 0 := by
  rw [cStr, List.getD_eq_getElem?_getD, List.getElem?_eq_none]
  · rfl
  · rw [List.length_append, List.length_cons]
    omega

/-- The loop ends by itself at a zero: with enough fuel, more of it changes nothing. -/
theorem strlenLoop_fuel {c_str : ℕ → UInt8} {size : ℕ} (hend : ∀ i, size ≤ i → c_str i = 0) :
    ∀ {fuel index : ℕ} (more : ℕ), 0 < fuel → size < fuel + index →
      strlenLoop c_str (fuel + more) index = strlenLoop c_str fuel index := by
  intro fuel
  induction fuel with
  | zero =>
    intro index more hpos _
    exact absurd hpos (lt_irrefl 0)
  | succ fuel ih =>
    intro index more _ hsize
    rw [Nat.add_right_comm, strlenLoop, strlenLoop]
    by_cases h0 : c_str index = 0
    · rw [if_pos h0, if_pos h0]
    · -- a byte that is no zero lies inside the memory, so there is fuel left for the rest
      have hin : index < size := by
        by_contra hout
        exact h0 (hend index (by omega))
      have hpos : 0 < fuel := by omega
      rw [if_neg h0, if_neg h0, ih more hpos (by omega), ih more hpos (by omega)]

/-- `strlenMultiByte` has the fuel it needs. -/
theorem strlenMultiByte_fuel (beyond : Bytes → Bytes) (str : Bytes) (more : ℕ) :
    strlenLoop (cStr beyond str) (str.length + (beyond str).length + 2 + more) 0 =
      strlenMultiByte beyond str :=
  strlenLoop_fuel (fun _ => cStr_of_le beyond str) more (by omega) (by omega)

/-! ### The console -/

/-- `s.substr(pos, n)`, for `pos` inside the string. -/
def substr (s : Bytes) (pos n : ℕ) : Bytes := (s.drop pos).take n

namespace DisplayConsole

/-- `DisplayConsole(header, footer, headerColor, footerColor)`; the constructor leaves
the two sizes as they are in memory. -/
def new (header footer : Bytes) (headerColor footerColor : eColor) (width height : ℕ) :
    DisplayConsole where
  mDisplay := ((DisplayBuffer.new.setHeader header).setFooter
    footer).setContentBufferCapacity 1024
  mHeaderColor := mANSIColors headerColor
  mFooterColor := mANSIColors footerColor
  bIsTimestampEnabled := true
  bIsFailed := false
  mPromptBuffer := []
  mPromptQueue := []
  mConsoleWidth := width
  mConsoleHeight := height
  bIsScreenUpdated := true
  mScreenBuffer := []
  mScreenBufferIndex := 0
  bIsScreenBufferRemain := true

/-- `PushCharPrompt(ch)`; the second component is what is left on standard input. -/
def pushCharPrompt (con : DisplayConsole) (ch : UInt8) (stdin : Bytes) :
    DisplayConsole × Bytes :=
  let con := { con with bIsScreenUpdated := true }
  -- '\n' or '\x04'
  if ch = 10 ∨ ch = 4 then
    ({ con with
        mPromptQueue := con.mPromptQueue ++ [con.mPromptBuffer]
        mPromptBuffer := [] }, stdin)
  else if ch = 127 then
    if con.mPromptBuffer.length > 0 then
      ({ con with mPromptBuffer := con.mPromptBuffer.dropLast }, stdin)
    else
      (con, stdin)
  else if ch = ESC then
    -- two calls of getchar()
    (con, stdin.drop 2)
  else
    ({ con with mPromptBuffer := con.mPromptBuffer ++ [ch] }, stdin)

/-- `PollPromptQueue(prompt)`; the last component is `prompt` afterwards. -/
def pollPromptQueue (con : DisplayConsole) (prompt : Bytes) : DisplayConsole × Bool × Bytes :=
  match con.mPromptQueue with
  | [] => (con, false, prompt)
  | front :: rest => ({ con with mPromptQueue := rest }, true, front)

/-- `PushContent(content, color)`. -/
def pushContent (con : DisplayConsole) (content : Bytes) (color : eColor) (localTime : Tm) :
    DisplayConsole :=
  { con with
    bIsScreenUpdated := true
    mDisplay := con.mDisplay.pushContent content color localTime }

/-- `ClearContent()`. -/
def clearContent (con : DisplayConsole) : DisplayConsole :=
  { con with
    bIsScreenUpdated := true
    mDisplay := con.mDisplay.clear }

/-- `SetHeader(str)`. -/
def setHeader (con : DisplayConsole) (str : Bytes) : DisplayConsole :=
  { con with
    bIsScreenUpdated := true
    mDisplay := con.mDisplay.setHeader str }

/-- `SetFooter(str)`. -/
def setFooter (con : DisplayConsole) (str : Bytes) : DisplayConsole :=
  { con with
    bIsScreenUpdated := true
    mDisplay := con.mDisplay.setFooter str }

/-- `SetHeaderColor(color)`. -/
def setHeaderColor (con : DisplayConsole) (color : eColor) : DisplayConsole :=
  { con with
    bIsScreenUpdated := true
    mHeaderColor := mANSIColors color }

/-- `SetFooterColor(color)`. -/
def setFooterColor (con : DisplayConsole) (color : eColor) : DisplayConsole :=
  { con with
    bIsScreenUpdated := true
    mFooterColor := mANSIColors color }

/-- `SetTimestamp(enable)`. -/
def setTimestamp (con : DisplayConsole) (enable : Bool) : DisplayConsole :=
  { con with
    bIsScreenUpdated := true
    bIsTimestampEnabled := enable }

/-- `SetIsScreenUpdated(status)`. -/
def setIsScreenUpdated (con : DisplayConsole) (status : Bool) : DisplayConsole :=
  { con with bIsScreenUpdated := status }

/-- `updateConsoleSize()`. -/
def updateConsoleSize (con : DisplayConsole) (window : Winsize) : DisplayConsole × Bool :=
  if con.mConsoleWidth ≠ window.ws_col.toNat ∨ con.mConsoleHeight ≠ window.ws_row.toNat then
    ({ con with
        mConsoleWidth := window.ws_col.toNat
        mConsoleHeight := window.ws_row.toNat }, true)
  else
    (con, false)

/-! ### Rendering -/

/-- `cursorToLine(line)`. -/
def cursorToLine (line : ℤ) : Bytes := ESC :: chars ['['] ++ decimal line ++ chars [';', '1', 'H']

/-- The row that `appendHeader` and `appendFooter` append: a space and the text, padded
with spaces or cut to the width of the console. -/
def bar (con : DisplayConsole) (color text : Bytes) : Bytes :=
  let textWidth := text.length
  if textWidth + 1 ≤ con.mConsoleWidth then
    let emptyLength := subUInt64 con.mConsoleWidth (textWidth + 1)
    color ++ chars [' '] ++ text ++ chars (List.replicate emptyLength ' ')
      ++ mANSIColors .Default ++ [10]
  else
    color ++ chars [' '] ++ substr text 0 (subUInt64 con.mConsoleWidth 1)
      ++ mANSIColors .Default ++ [10]

/-- `appendHeader(screenBuffer)`. -/
def appendHeader (con : DisplayConsole) (screenBuffer : Bytes) : Bytes :=
  screenBuffer ++ con.bar con.mHeaderColor con.mDisplay.mHeader

/-- The columns that the timestamp takes. -/
def timestampWidth (con : DisplayConsole) : ℕ := if con.bIsTimestampEnabled then 10 else 0

/-- What one round of the loop of `appendContent` appends for `content`. -/
def contentRow (beyond : Bytes → Bytes) (con : DisplayConsole) (content : Content) : Bytes :=
  let timestamp := if con.bIsTimestampEnabled then
      content.TimeStamp ++ chars [' '] ++ mANSIColors .BrightBlue ++ chars ['-']
        ++ mANSIColors .Default ++ chars ['!'] ++ mANSIColors .BrightBlue ++ chars ['-']
        ++ mANSIColors .Default ++ chars [' ']
    else []
  -- too long: the first characters and three dots, counted in characters, not in bytes
  if (strlenMultiByte beyond content.String).1 + con.timestampWidth > con.mConsoleWidth then
    let leftWidth := subUInt64 con.mConsoleWidth con.timestampWidth
    timestamp ++ mANSIColors content.Color
      ++ (copyLoop (cStr beyond content.String) (subUInt64 leftWidth 3) 0).1
      ++ chars ['.', '.', '.'] ++ [10] ++ mANSIColors .Default
  else
    timestamp ++ mANSIColors content.Color ++ content.String ++ [10] ++ mANSIColors .Default

/-- `appendContent(screenBuffer)`. -/
def appendContent (beyond : Bytes → Bytes) (con : DisplayConsole) (screenBuffer : Bytes) :
    Bytes :=
  let leftHeight := subUInt64 con.mConsoleHeight 3
  let contentBuffer := con.mDisplay.mContentBuffer
  let outBufferIndex := if contentBuffer.length > leftHeight then
      subUInt64 contentBuffer.length leftHeight
    else 0
  screenBuffer ++ (contentBuffer.drop outBufferIndex).flatMap (con.contentRow beyond)

/-- `appendFooter(screenBuffer)`. -/
def appendFooter (con : DisplayConsole) (screenBuffer : Bytes) : Bytes :=
  screenBuffer ++ cursorToLine (toInt (subUInt64 con.mConsoleHeight 1))
    ++ con.bar con.mFooterColor con.mDisplay.mFooter

/-- `"[(status)] "`. -/
def promptMarker : Bytes := chars ['[', '(', 's', 't', 'a', 't', 'u', 's', ')', ']', ' ']

/-- `appendPrompt(screenBuffer)`. -/
def appendPrompt (con : DisplayConsole) (screenBuffer : Bytes) : Bytes :=
  let screenBuffer := screenBuffer ++ cursorToLine (toInt con.mConsoleHeight)
  if con.mPromptBuffer.length + 11 ≤ con.mConsoleWidth then
    screenBuffer ++ promptMarker ++ con.mPromptBuffer
  else
    let leftWidth := subUInt64 con.mConsoleWidth 11
    screenBuffer ++ promptMarker
      ++ con.mPromptBuffer.drop (subUInt64 con.mPromptBuffer.length leftWidth)

/-- The string that `renderScreenString` leaves in its buffer, of the object after
`updateConsoleSize`. -/
def screenString (beyond : Bytes → Bytes) (con : DisplayConsole) : Bytes :=
  let screenBuffer := ESC :: chars ['[', 'H'] ++ ESC :: chars ['[', 'J']
  if con.mConsoleHeight < 8 ∨ con.mConsoleWidth < 18 then
    screenBuffer
  else
    con.appendPrompt (con.appendFooter (con.appendContent beyond (con.appendHeader screenBuffer)))

/-- The header, the footer, the colours, the contents, the prompt, the timestamp setting
and the recorded size are all that is rendered. -/
theorem screenString_congr (beyond : Bytes → Bytes) {con con' : DisplayConsole}
    (hdisplay : con.mDisplay = con'.mDisplay) (hheader : con.mHeaderColor = con'.mHeaderColor)
    (hfooter : con.mFooterColor = con'.mFooterColor)
    (htimestamp : con.bIsTimestampEnabled = con'.bIsTimestampEnabled)
    (hprompt : con.mPromptBuffer = con'.mPromptBuffer)
    (hwidth : con.mConsoleWidth = con'.mConsoleWidth)
    (hheight : con.mConsoleHeight = con'.mConsoleHeight) :
    con.screenString beyond = con'.screenString beyond := by
  have hrow : con.contentRow beyond = con'.contentRow beyond := by
    funext content
    rw [contentRow, contentRow, timestampWidth, timestampWidth, htimestamp, hwidth]
  have hbar : con.bar = con'.bar := by
    funext color text
    rw [bar, bar, hwidth]
  simp only [screenString, appendHeader, appendContent, appendFooter, appendPrompt, hrow, hbar,
    hdisplay, hheader, hfooter, hprompt, hwidth, hheight]

/-- `renderScreenString(mScreenBuffer)`. -/
def renderScreenString (beyond : Bytes → Bytes) (con : DisplayConsole) (window : Winsize) :
    DisplayConsole :=
  let con := (con.updateConsoleSize window).1
  { con with mScreenBuffer := con.screenString beyond }

/-- The first half of `Refresh()`: render if something changed.  `window` is what the
`updateConsoleSize` call of the condition reads, `window'` that of
`renderScreenString`. -/
def rerender (beyond : Bytes → Bytes) (con : DisplayConsole) (window window' : Winsize) :
    DisplayConsole × List ScreenAct :=
  -- `||` reads the window only if nothing is marked as updated
  let r := if con.bIsScreenUpdated then (con, true) else con.updateConsoleSize window
  if r.2 then
    ({ r.1.renderScreenString beyond window' with
        mScreenBufferIndex := 0
        bIsScreenBufferRemain := true
        bIsScreenUpdated := false }, [.rendered])
  else
    (r.1, [])

/-- The second half of `Refresh()`: write what remains. -/
def flush (con : DisplayConsole) (wrote : Option ℕ) : DisplayConsole × List ScreenAct :=
  if con.bIsScreenBufferRemain then
    let buf := con.mScreenBuffer.drop con.mScreenBufferIndex
    let len := strlen buf
    let call := ScreenAct.write (buf.take len) wrote
    match wrote with
    | none => ({ con with bIsFailed := true }, [call])
    | some wrote =>
      let con := { con with mScreenBufferIndex := con.mScreenBufferIndex + wrote }
      if wrote = len then
        ({ con with
            bIsScreenBufferRemain := false
            mScreenBufferIndex := 0 }, [call])
      else
        (con, [call])
  else
    (con, [])

/-- `Refresh()`. -/
def refresh (beyond : Bytes → Bytes) (con : DisplayConsole) (window window' : Winsize)
    (wrote : Option ℕ) : DisplayConsole × List ScreenAct :=
  let r := con.rerender beyond window window'
  let w := r.1.flush wrote
  (w.1, r.2 ++ w.2)

end DisplayConsole

end Gdf
