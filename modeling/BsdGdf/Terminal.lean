/-
A character terminal.

The terminal has a screen of cells, a cursor, a rendition for what is written next, and
a parser for the control sequences `ESC [ … H` (move), `ESC [ J` (erase what is below) and
`ESC [ … m` (rendition).  After the last column is written the cursor waits behind it, and
the next character goes to the next line; a line feed starts a new line, as the line
discipline sends it, and scrolls on the last one.  Erased cells keep the rendition that
`fill` makes of the current one.  All other bytes leave it as it is.

* `feed_append` — how a byte string is cut into writes does not matter;
* `feed_text`, `feed_newline`, `feed_numeral` — what text, a line feed and a numeral do, on
  any terminal that is ready for them;
* `feed_sequence` — a control sequence, whatever unfinished one it follows;
* `typed_spans`, `typed_lines` — a page of lines of several renditions is typed, and the
  whole terminal is known;
* `typed_looks_iff` — when two pages look the same.
-/
import BsdGdf.Numerals
import Mathlib.Data.Nat.Notation
import Mathlib.Data.List.GetD
import Mathlib.Data.List.Infix
import Mathlib.Logic.Function.Basic
import Mathlib.Tactic.SplitIfs

namespace Terminal

/-- How a character is shown; without a colour it is the one the terminal has anyway. -/
structure Rendition where
  foreground : Option ℕ
  background : Option ℕ
  bold : Bool
  deriving DecidableEq, Repr

namespace Rendition

/-- Nothing was said about it. -/
def plain : Rendition := ⟨none, none, false⟩

/-- What a code says about it; 0 takes everything back. -/
def code (rendition : Rendition) (n : ℕ) : Rendition :=
  if n = 0 then plain
  else if n = 1 then { rendition with bold := true }
  else if 30 ≤ n ∧ n ≤ 37 then { rendition with foreground := some n }
  else if 40 ≤ n ∧ n ≤ 47 then { rendition with background := some n }
  else rendition

/-- After some codes. -/
def render (rendition : Rendition) (codes : List ℕ) : Rendition := codes.foldl code rendition

end Rendition

/-- A character on the screen. -/
structure Cell where
  glyph : UInt8
  rendition : Rendition
  deriving DecidableEq, Repr

/-- How far a control sequence has been read: the parameters before the last one, and the
last one as far as it goes. -/
inductive Parser
  | ground
  | escape
  | csi (params : List ℕ) (last : ℕ)
  deriving DecidableEq, Repr

/-- Rows and columns count from 0; the cursor is in column `cols` after the last column
was written. -/
structure Screen where
  rows : ℕ
  cols : ℕ
  cells : ℕ → ℕ → Cell
  row : ℕ
  col : ℕ
  rendition : Rendition
  parser : Parser

/-- A printable ASCII character. -/
def Printable (b : UInt8) : Prop := 0x20 ≤ b ∧ b ≤ 0x7E

instance : DecidablePred Printable := fun _ => inferInstanceAs (Decidable (_ ∧ _))

namespace Screen

variable (fill : Rendition → Rendition) (t : Screen)

/-- An erased cell. -/
def blank : Cell := ⟨0x20, fill t.rendition⟩

/-- One line down; on the last line everything moves up. -/
def lineFeed : Screen :=
  if t.row + 1 < t.rows then
    { t with row := t.row + 1 }
  else
    { t with cells := fun r c => if r + 1 < t.rows then t.cells (r + 1) c else t.blank fill }

/-- The start of the next line. -/
def newline : Screen := { t.lineFeed fill with col := 0 }

/-- A character at the cursor. -/
def put (b : UInt8) : Screen :=
  let t := if t.col < t.cols then t else t.newline fill
  { t with
    cells := fun r c => if r = t.row ∧ c = t.col then ⟨b, t.rendition⟩ else t.cells r c
    col := t.col + 1 }

/-- Lines and columns of a control sequence count from 1, and 0 stands for 1. -/
def moveTo (line column : ℕ) : Screen :=
  { t with
    row := min (line - 1) (t.rows - 1)
    col := min (column - 1) (t.cols - 1) }

/-- Erase from the cursor on. -/
def eraseBelow : Screen :=
  { t with cells := fun r c =>
      if t.row < r ∨ (t.row = r ∧ t.col ≤ c) then t.blank fill else t.cells r c }

/-- A complete control sequence. -/
def command (params : List ℕ) (final : UInt8) : Screen :=
  if final = 0x48 then
    t.moveTo (params.getD 0 0) (params.getD 1 0)
  else if final = 0x4A ∧ params.getD 0 0 = 0 then
    t.eraseBelow fill
  else if final = 0x6D then
    { t with rendition := t.rendition.render params }
  else
    t

/-- One byte. -/
def step (b : UInt8) : Screen :=
  if b = 27 then
    -- whatever was read of a control sequence is dropped
    { t with parser := .escape }
  else
    match t.parser with
    | .ground =>
      if b = 10 then t.newline fill
      else if Printable b then t.put fill b
      else t
    | .escape => if b = 0x5B then { t with parser := .csi [] 0 } else { t with parser := .ground }
    | .csi params last =>
      if 0x30 ≤ b ∧ b ≤ 0x39 then
        { t with parser := .csi params (10 * last + (b.toNat - 0x30)) }
      else if b = 0x3B then
        { t with parser := .csi (params ++ [last]) 0 }
      else if 0x40 ≤ b ∧ b ≤ 0x7E then
        { t with parser := .ground }.command fill (params ++ [last]) b
      else
        t

/-- The same cells and the same cursor. -/
structure Looks (t t' : Screen) : Prop where
  rows : t.rows = t'.rows
  cols : t.cols = t'.cols
  cells : ∀ r < t.rows, ∀ c < t.cols, t.cells r c = t'.cells r c
  row : t.row = t'.row
  col : t.col = t'.col

/-- All bytes of a string. -/
def feed (bytes : List UInt8) : Screen := bytes.foldl (step fill) t

end Screen

open Screen Numerals

variable {fill : Rendition → Rendition} {t : Screen} {b : UInt8} {text : List UInt8}

/-! ### Strings -/

@[simp] theorem feed_nil (t : Screen) : t.feed fill [] = t := rfl

theorem feed_cons (t : Screen) (b : UInt8) (rest : List UInt8) :
    t.feed fill (b :: rest) = (t.step fill b).feed fill rest := rfl

/-- **How a string is cut into writes does not matter.** -/
theorem feed_append (t : Screen) (l m : List UInt8) :
    t.feed fill (l ++ m) = (t.feed fill l).feed fill m := List.foldl_append

/-- No byte changes the size. -/
theorem step_size (fill : Rendition → Rendition) (t : Screen) (b : UInt8) :
    (t.step fill b).rows = t.rows ∧ (t.step fill b).cols = t.cols := by
  have hline : ∀ t : Screen, (t.lineFeed fill).rows = t.rows ∧ (t.lineFeed fill).cols = t.cols := by
    intro t
    rw [lineFeed]
    split_ifs <;> exact ⟨rfl, rfl⟩
  have hput : ∀ t : Screen, (t.put fill b).rows = t.rows ∧ (t.put fill b).cols = t.cols := by
    intro t
    simp only [put]
    split_ifs
    · exact ⟨rfl, rfl⟩
    · exact hline t
  have hcommand : ∀ (t : Screen) (params : List ℕ), (t.command fill params b).rows = t.rows ∧
      (t.command fill params b).cols = t.cols := by
    intro t params
    rw [command]
    split_ifs <;> exact ⟨rfl, rfl⟩
  by_cases hesc : b = 27
  · rw [step, if_pos hesc]
    exact ⟨rfl, rfl⟩
  · rw [step, if_neg hesc]
    cases t.parser with
    | ground =>
      simp only
      split_ifs
      · exact hline t
      · exact hput t
      · exact ⟨rfl, rfl⟩
    | escape =>
      simp only
      split_ifs <;> exact ⟨rfl, rfl⟩
    | csi params last =>
      simp only
      split_ifs
      · exact ⟨rfl, rfl⟩
      · exact ⟨rfl, rfl⟩
      · exact hcommand _ _
      · exact ⟨rfl, rfl⟩

theorem feed_size (fill : Rendition → Rendition) (t : Screen) (bytes : List UInt8) :
    (t.feed fill bytes).rows = t.rows ∧ (t.feed fill bytes).cols = t.cols := by
  induction bytes generalizing t with
  | nil => exact ⟨rfl, rfl⟩
  | cons b bytes ih =>
    obtain ⟨hrows, hcols⟩ := step_size fill t b
    obtain ⟨hrows', hcols'⟩ := ih (t.step fill b)
    exact ⟨hrows'.trans hrows, hcols'.trans hcols⟩

/-! ### Text -/

theorem Printable.ne_escape (h : Printable b) : b ≠ 27 := by
  rintro rfl
  exact absurd h (by decide)

theorem Printable.ne_newline (h : Printable b) : b ≠ 10 := by
  rintro rfl
  exact absurd h (by decide)

/-- The cells with a text written over them. -/
def overlay (cells : ℕ → ℕ → Cell) (row col : ℕ) (rendition : Rendition) (text : List UInt8) :
    ℕ → ℕ → Cell := fun r c =>
  if r = row ∧ col ≤ c ∧ c < col + text.length then ⟨text.getD (c - col) 0, rendition⟩
  else cells r c

/-- A character and the text behind it. -/
theorem overlay_cons (cells : ℕ → ℕ → Cell) (row col : ℕ) (rendition : Rendition) (b : UInt8)
    (text : List UInt8) :
    overlay (overlay cells row col rendition [b]) row (col + 1) rendition text =
      overlay cells row col rendition (b :: text) := by
  funext r c
  simp only [overlay, List.length_cons, List.length_nil]
  by_cases hr : r = row
  · rcases Nat.lt_trichotomy c col with hlt | rfl | hgt
    · rw [if_neg (by omega), if_neg (by omega), if_neg (by omega)]
    · rw [if_neg (by omega), if_pos (by omega), if_pos (by omega), Nat.sub_self]
      rfl
    · have hsub : c - col = c - (col + 1) + 1 := by omega
      by_cases hin : c < col + 1 + text.length
      · rw [if_pos (by omega), if_pos (by omega), hsub]
        rfl
      · rw [if_neg (by omega), if_neg (by omega), if_neg (by omega)]
  · rw [if_neg (fun h => hr h.1), if_neg (fun h => hr h.1), if_neg (fun h => hr h.1)]

/-- A character that fits on the line. -/
theorem step_printable (hparser : t.parser = .ground) (hb : Printable b) (hfits : t.col < t.cols) :
    t.step fill b = { t with
      cells := overlay t.cells t.row t.col t.rendition [b]
      col := t.col + 1 } := by
  have hput : t.step fill b = t.put fill b := by
    rw [step, if_neg hb.ne_escape, hparser]
    simp only [if_neg hb.ne_newline, if_pos hb]
  have hcells : (fun r c => if r = t.row ∧ c = t.col then ⟨b, t.rendition⟩ else t.cells r c) =
      overlay t.cells t.row t.col t.rendition [b] := by
    funext r c
    simp only [overlay, List.length_singleton]
    by_cases hat : r = t.row ∧ c = t.col
    · rw [if_pos hat, if_pos (by omega), hat.2, Nat.sub_self]
      rfl
    · rw [if_neg hat, if_neg (by omega)]
  rw [hput, put, if_pos hfits, hcells]

/-- A text that fits on the line is written behind the cursor. -/
theorem feed_text (hparser : t.parser = .ground) (htext : ∀ b ∈ text, Printable b)
    (hfits : t.col + text.length ≤ t.cols) :
    t.feed fill text = { t with
      cells := overlay t.cells t.row t.col t.rendition text
      col := t.col + text.length } := by
  induction text generalizing t with
  | nil =>
    have hsame : overlay t.cells t.row t.col t.rendition [] = t.cells := by
      funext r c
      exact if_neg (by rw [List.length_nil]; omega)
    rw [hsame]
    rfl
  | cons b text ih =>
    obtain ⟨hb, hrest⟩ := List.forall_mem_cons.mp htext
    rw [List.length_cons] at hfits ⊢
    have hnext : t.col + 1 + text.length ≤ t.cols := by omega
    rw [feed_cons, step_printable hparser hb (by omega), ih (t := { t with
      cells := overlay t.cells t.row t.col t.rendition [b]
      col := t.col + 1 }) hparser hrest hnext, overlay_cons]
    simp only [Nat.add_assoc, Nat.add_comm 1]

/-- A line feed that does not scroll. -/
theorem feed_newline (hparser : t.parser = .ground) (hrow : t.row + 1 < t.rows) :
    t.feed fill [10] = { t with row := t.row + 1, col := 0 } := by
  have hnewline : t.step fill 10 = t.newline fill := by
    rw [step, if_neg (by decide), hparser]
    simp only [if_true]
  rw [feed_cons, feed_nil, hnewline, newline, lineFeed, if_pos hrow]

/-! ### Control sequences -/

/-- Digits are read into the last parameter. -/
theorem feed_digits {params : List ℕ} {last : ℕ} {ds : List UInt8}
    (hparser : t.parser = .csi params last) (hds : ∀ b ∈ ds, isDigit b = true) :
    t.feed fill ds = { t with parser := .csi params (valueFrom last ds) } := by
  induction ds generalizing t last with
  | nil =>
    rw [feed_nil, valueFrom, List.foldl_nil, ← hparser]
  | cons b ds ih =>
    obtain ⟨hb, hrest⟩ := List.forall_mem_cons.mp hds
    have hdigit : (0x30 : UInt8) ≤ b ∧ b ≤ 0x39 := by
      rwa [isDigit, Bool.and_eq_true, decide_eq_true_iff, decide_eq_true_iff] at hb
    have hesc : b ≠ 27 := by
      rintro rfl
      exact absurd hdigit (by decide)
    have hstep : t.step fill b = { t with parser := .csi params (10 * last + digitValue b) } := by
      rw [step, if_neg hesc, hparser]
      simp only [if_pos hdigit, digitValue]
    rw [feed_cons, hstep, ih rfl hrest, valueFrom_cons]

theorem feed_numeral {params : List ℕ} (hparser : t.parser = .csi params 0) (n : ℕ) :
    t.feed fill (numeral n) = { t with parser := .csi params n } := by
  rw [feed_digits hparser (isDigit_numeral n), ← value, value_numeral]

/-- The parameters of a control sequence, with `';'` between them. -/
def paramText : List ℕ → List UInt8
  | [] => []
  | [n] => numeral n
  | n :: params => numeral n ++ 0x3B :: paramText params

/-- A control sequence. -/
def sequence (params : List ℕ) (final : UInt8) : List UInt8 :=
  27 :: 0x5B :: (paramText params ++ [final])

theorem feed_paramText (fill : Rendition → Rendition) {before params : List ℕ}
    (hparser : t.parser = .csi before 0) (hne : params ≠ []) :
    ∃ front last, params = front ++ [last] ∧ t.feed fill (paramText params) =
      { t with parser := .csi (before ++ front) last } := by
  induction params generalizing t before with
  | nil => exact absurd rfl hne
  | cons n params ih =>
    rcases params with _ | ⟨m, params⟩
    · refine ⟨[], n, rfl, ?_⟩
      rw [paramText, feed_numeral hparser, List.append_nil]
    · obtain ⟨front, last, hparams, hfeed⟩ :=
        ih (t := { t with parser := .csi (before ++ [n]) 0 }) rfl (List.cons_ne_nil m params)
      refine ⟨n :: front, last, congrArg (n :: ·) hparams, ?_⟩
      have hsemicolon : ({ t with parser := .csi before n } : Screen).step fill 0x3B =
          { t with parser := .csi (before ++ [n]) 0 } := rfl
      rw [paramText, feed_append, feed_numeral hparser, feed_cons, hsemicolon, hfeed,
        List.append_assoc]
      · rfl
      · exact List.cons_ne_nil m params

/-- The byte that ends a control sequence. -/
theorem step_final {params : List ℕ} {last : ℕ} {final : UInt8}
    (hparser : t.parser = .csi params last) (hfinal : 0x40 ≤ final ∧ final ≤ 0x7E) :
    t.step fill final = { t with parser := .ground }.command fill (params ++ [last]) final := by
  have hlow : ∀ b : UInt8, b < 0x40 → final ≠ b := by
    rintro b hb rfl
    exact absurd hfinal.1 (UInt8.not_le.mpr hb)
  have hdigit : ¬ (0x30 ≤ final ∧ final ≤ 0x39) := by
    rintro ⟨-, hle⟩
    exact absurd (UInt8.le_trans hfinal.1 hle) (by decide)
  rw [step, if_neg (hlow 27 (by decide)), hparser]
  simp only [if_neg hdigit, if_neg (hlow 0x3B (by decide)), if_pos hfinal]

/-- **A control sequence**, whatever unfinished one it follows.  Without parameters the
only one is 0. -/
theorem feed_sequence (t : Screen) (params : List ℕ) {final : UInt8}
    (hfinal : 0x40 ≤ final ∧ final ≤ 0x7E) :
    t.feed fill (sequence params final) = { t with parser := .ground }.command fill
      (if params = [] then [0] else params) final := by
  have hopen : (t.step fill 27).step fill 0x5B = { t with parser := .csi [] 0 } := rfl
  rw [sequence, feed_cons, feed_cons, hopen, feed_append, feed_cons, feed_nil]
  by_cases hne : params = []
  · rw [if_pos hne, hne, paramText, feed_nil, step_final rfl hfinal, List.nil_append]
  · obtain ⟨front, last, hparams, hfeed⟩ :=
      feed_paramText fill (t := { t with parser := .csi [] 0 }) rfl hne
    rw [if_neg hne, hfeed, step_final rfl hfinal, List.nil_append, ← hparams]

/-! ### Typing a page -/

/-- The cells of a page of lines, the rest of which is `empty`. -/
def page (empty : Cell) (lines : ℕ → List Cell) : ℕ → ℕ → Cell := fun r c =>
  (lines r).getD c empty

/-- A text in a rendition. -/
def cellsOf (rendition : Rendition) (text : List UInt8) : List Cell :=
  text.map fun b => ⟨b, rendition⟩

/-- A terminal on which a page is typed, with the cursor at the end of a line. -/
def typed (rows cols : ℕ) (empty : Cell) (lines : ℕ → List Cell) (row : ℕ)
    (rendition : Rendition) : Screen :=
  ⟨rows, cols, page empty lines, row, (lines row).length, rendition, .ground⟩

variable {rows cols row : ℕ} {empty : Cell} {lines : ℕ → List Cell} {rendition : Rendition}

/-- Two pages with lines of the same lengths look the same if the lines are the same and
the rest is, where there is one. -/
theorem typed_looks_iff {empty' : Cell} {lines' : ℕ → List Cell} {rendition' : Rendition}
    (hlen : ∀ r, (lines r).length = (lines' r).length)
    (hfits : ∀ r < rows, (lines r).length ≤ cols) :
    (typed rows cols empty lines row rendition).Looks
        (typed rows cols empty' lines' row rendition') ↔
      (∀ r < rows, lines r = lines' r) ∧
        ((∃ r < rows, (lines r).length < cols) → empty = empty') := by
  constructor
  · intro h
    refine ⟨fun r hr => List.ext_getElem (hlen r) fun c hc hc' => ?_, ?_⟩
    · have hcell : (lines r).getD c empty = (lines' r).getD c empty' :=
        h.cells r hr c (hc.trans_le (hfits r hr))
      rwa [List.getD_eq_getElem _ _ hc, List.getD_eq_getElem _ _ hc'] at hcell
    · rintro ⟨r, hr, hshort⟩
      have hcell : (lines r).getD (lines r).length empty =
          (lines' r).getD (lines r).length empty' := h.cells r hr _ hshort
      rwa [List.getD_eq_default _ _ le_rfl, List.getD_eq_default _ _ (hlen r).ge] at hcell
  · rintro ⟨hlines, hempty⟩
    refine ⟨rfl, rfl, fun r hr c hc => ?_, rfl, hlen row⟩
    show (lines r).getD c empty = (lines' r).getD c empty'
    rcases Nat.lt_or_ge c (lines r).length with hin | hout
    · rw [← hlines r hr, List.getD_eq_getElem _ _ hin, List.getD_eq_getElem _ _ hin]
    · rw [← hlines r hr, hempty ⟨r, hr, hout.trans_lt hc⟩]

/-- A text written behind a line of a page. -/
theorem overlay_page (empty : Cell) (lines : ℕ → List Cell) (row : ℕ) (rendition : Rendition)
    (text : List UInt8) :
    overlay (page empty lines) row (lines row).length rendition text =
      page empty (Function.update lines row (lines row ++ cellsOf rendition text)) := by
  funext r c
  simp only [overlay, page]
  by_cases hr : r = row
  · rw [hr, Function.update_self]
    rcases Nat.lt_or_ge c (lines row).length with hlt | hge
    · rw [if_neg (by omega), List.getD_append _ _ _ _ hlt]
    · have hright : (lines row ++ cellsOf rendition text).getD c empty =
          (cellsOf rendition text).getD (c - (lines row).length) empty := by
        rw [List.getD_eq_getElem?_getD, List.getElem?_append_right hge,
          List.getD_eq_getElem?_getD]
      rw [hright, cellsOf]
      by_cases hin : c - (lines row).length < text.length
      · rw [if_pos (by omega), List.getD_eq_getElem _ _ hin,
          List.getD_eq_getElem _ _ (by rw [List.length_map]; exact hin), List.getElem_map]
      · rw [if_neg (by omega), List.getD_eq_default _ _ hge,
          List.getD_eq_default _ _ (by rw [List.length_map]; omega)]
  · rw [Function.update_of_ne hr, if_neg (fun h => hr h.1)]

/-- A text goes to the end of the line. -/
theorem typed_text (htext : ∀ b ∈ text, Printable b)
    (hfits : (lines row).length + text.length ≤ cols) :
    (typed rows cols empty lines row rendition).feed fill text =
      typed rows cols empty
        (Function.update lines row (lines row ++ cellsOf rendition text)) row rendition := by
  have hlength : (lines row).length + text.length =
      (Function.update lines row (lines row ++ cellsOf rendition text) row).length := by
    rw [Function.update_self, List.length_append, cellsOf, List.length_map]
  rw [feed_text rfl htext hfits]
  show (⟨_, _, overlay (page empty lines) row (lines row).length rendition text, _,
    (lines row).length + text.length, _, _⟩ : Screen) = _
  rw [overlay_page, hlength]
  rfl

/-- The next line. -/
theorem typed_newline (hrow : row + 1 < rows) (hnext : lines (row + 1) = []) :
    (typed rows cols empty lines row rendition).feed fill [10] =
      typed rows cols empty lines (row + 1) rendition := by
  rw [feed_newline rfl hrow, typed, typed, hnext]
  rfl

/-- Another rendition. -/
theorem typed_rendition (codes : List ℕ) (hne : codes ≠ []) :
    (typed rows cols empty lines row rendition).feed fill (sequence codes 0x6D) =
      typed rows cols empty lines row (rendition.render codes) := by
  rw [feed_sequence _ _ (by decide), if_neg hne]
  rfl

/-- The start of an empty line. -/
theorem typed_line {line : ℕ} (hline : 1 ≤ line ∧ line ≤ rows) (hempty : lines (line - 1) = []) :
    (typed rows cols empty lines row rendition).feed fill (sequence [line, 1] 0x48) =
      typed rows cols empty lines (line - 1) rendition := by
  have hmin : min (line - 1) (rows - 1) = line - 1 := by omega
  have hstart : (lines (line - 1)).length = 0 := List.length_eq_zero_iff.mpr hempty
  rw [feed_sequence _ _ (by decide), if_neg (List.cons_ne_nil _ _)]
  show (⟨rows, cols, page empty lines, min (line - 1) (rows - 1), min (1 - 1) (cols - 1),
    rendition, .ground⟩ : Screen) =
      ⟨rows, cols, page empty lines, line - 1, (lines (line - 1)).length, rendition, .ground⟩
  rw [hmin, hstart, Nat.sub_self, Nat.zero_min]

/-- The cursor home, and everything erased: an empty page. -/
theorem feed_clear (t : Screen) :
    t.feed fill (sequence [] 0x48 ++ sequence [] 0x4A) =
      typed t.rows t.cols (t.blank fill) (fun _ => []) 0 t.rendition := by
  have hhome : t.feed fill (sequence [] 0x48) =
      { t with row := 0, col := 0, parser := .ground } := by
    rw [feed_sequence _ _ (by decide), if_pos rfl]
    show (⟨_, _, _, min (0 - 1) _, min (0 - 1) _, _, _⟩ : Screen) = _
    simp
  rw [feed_append, hhome, feed_sequence _ _ (by decide), if_pos rfl]
  show (⟨_, _, fun r c => if 0 < r ∨ (0 = r ∧ 0 ≤ c) then _ else _, _, _, _, _⟩ : Screen) = _
  have hall : ∀ r c : ℕ, 0 < r ∨ (0 = r ∧ 0 ≤ c) := by
    intro r c
    omega
  simp only [hall, if_true]
  rfl

/-! ### Lines of several renditions -/

/-- A text with the codes in front of it. -/
abbrev Span := List ℕ × List UInt8

/-- The bytes of some spans; without codes there is no control sequence. -/
def encode (spans : List Span) : List UInt8 :=
  spans.flatMap fun span => (if span.1 = [] then [] else sequence span.1 0x6D) ++ span.2

/-- The cells of some spans. -/
def spanCells (rendition : Rendition) : List Span → List Cell
  | [] => []
  | span :: spans => cellsOf (rendition.render span.1) span.2 ++
      spanCells (rendition.render span.1) spans

/-- The rendition behind them. -/
def spanRendition (rendition : Rendition) (spans : List Span) : Rendition :=
  spans.foldl (fun rendition span => rendition.render span.1) rendition

theorem encode_cons (span : Span) (spans : List Span) :
    encode (span :: spans) =
      (if span.1 = [] then [] else sequence span.1 0x6D) ++ (span.2 ++ encode spans) := by
  rw [encode, List.flatMap_cons, List.append_assoc]
  rfl

theorem length_spanCells (rendition : Rendition) (spans : List Span) :
    (spanCells rendition spans).length = (spans.flatMap Prod.snd).length := by
  induction spans generalizing rendition with
  | nil => rfl
  | cons span spans ih =>
    rw [spanCells, List.length_append, cellsOf, List.length_map, ih, List.flatMap_cons,
      List.length_append]

theorem typed_spans {spans : List Span} (htext : ∀ span ∈ spans, ∀ b ∈ span.2, Printable b)
    (hfits : (lines row).length + (spans.flatMap Prod.snd).length ≤ cols) :
    (typed rows cols empty lines row rendition).feed fill (encode spans) =
      typed rows cols empty
        (Function.update lines row (lines row ++ spanCells rendition spans)) row
        (spanRendition rendition spans) := by
  induction spans generalizing lines rendition with
  | nil =>
    rw [spanCells, List.append_nil, Function.update_eq_self]
    rfl
  | cons span spans ih =>
    obtain ⟨codes, text⟩ := span
    obtain ⟨hspan, hspans⟩ := List.forall_mem_cons.mp htext
    rw [List.flatMap_cons, List.length_append] at hfits
    have hcodes : (typed rows cols empty lines row rendition).feed fill
        (if codes = [] then [] else sequence codes 0x6D) =
          typed rows cols empty lines row (rendition.render codes) := by
      by_cases hne : codes = []
      · rw [if_pos hne, hne]
        rfl
      · rw [if_neg hne, typed_rendition codes hne]
    have hline : (Function.update lines row
        (lines row ++ cellsOf (rendition.render codes) text) row).length =
          (lines row).length + text.length := by
      rw [Function.update_self, List.length_append, cellsOf, List.length_map]
    simp only at hspan hfits
    rw [encode_cons, feed_append, hcodes, feed_append, typed_text hspan (by omega),
      ih hspans (by omega), Function.update_self, Function.update_idem, List.append_assoc]
    rfl

/-- The lines with some others in place from `row` on. -/
def inserted (lines : ℕ → List Cell) (row : ℕ) (more : List (List Cell)) : ℕ → List Cell :=
  fun r => if row ≤ r ∧ r < row + more.length then more.getD (r - row) [] else lines r

theorem inserted_cons (lines : ℕ → List Cell) (row : ℕ) (line : List Cell)
    (more : List (List Cell)) :
    inserted (Function.update lines row line) (row + 1) more =
      inserted lines row (line :: more) := by
  funext r
  simp only [inserted, List.length_cons]
  rcases Nat.lt_trichotomy r row with hlt | rfl | hgt
  · rw [if_neg (by omega), if_neg (by omega), Function.update_of_ne (by omega)]
  · rw [if_neg (by omega), if_pos (by omega), Function.update_self, Nat.sub_self]
    rfl
  · have hsub : r - row = r - (row + 1) + 1 := by omega
    by_cases hin : r < row + 1 + more.length
    · rw [if_pos (by omega), if_pos (by omega), hsub]
      rfl
    · rw [if_neg (by omega), if_neg (by omega), Function.update_of_ne (by omega)]

/-- Some lines, each ended by a line feed, with the rendition taken back behind it. -/
theorem typed_lines {spanss : List (List Span)}
    (htext : ∀ spans ∈ spanss, ∀ span ∈ spans, ∀ b ∈ span.2, Printable b)
    (hfits : ∀ spans ∈ spanss, (spans.flatMap Prod.snd).length ≤ cols)
    (hrows : row + spanss.length < rows) (hempty : ∀ r, row ≤ r → lines r = []) :
    (typed rows cols empty lines row .plain).feed fill
        (spanss.flatMap fun spans => encode spans ++ [10] ++ sequence [0] 0x6D) =
      typed rows cols empty (inserted lines row (spanss.map (spanCells .plain)))
        (row + spanss.length) .plain := by
  induction spanss generalizing lines row with
  | nil =>
    have hsame : inserted lines row [] = lines := by
      funext r
      exact if_neg (by rw [List.length_nil]; omega)
    rw [List.map_nil, hsame]
    rfl
  | cons spans spanss ih =>
    obtain ⟨hspans, hrest⟩ := List.forall_mem_cons.mp htext
    obtain ⟨hlen, hlens⟩ := List.forall_mem_cons.mp hfits
    rw [List.length_cons] at hrows
    have hstart : lines row = [] := hempty row le_rfl
    have hbelow : ∀ r, row + 1 ≤ r →
        Function.update lines row (spanCells .plain spans) r = [] := by
      intro r hr
      rw [Function.update_of_ne (by omega)]
      exact hempty r (by omega)
    rw [List.flatMap_cons, feed_append, feed_append, feed_append,
      typed_spans hspans (by rw [hstart]; simpa using hlen), hstart, List.nil_append,
      typed_newline (by omega) (hbelow _ le_rfl), typed_rendition [0] (List.cons_ne_nil _ _)]
    have hreset : (spanRendition .plain spans).render [0] = .plain := rfl
    rw [hreset, ih hrest hlens (by omega) hbelow, inserted_cons, List.map_cons, List.length_cons,
      Nat.add_right_comm, Nat.add_assoc]

end Terminal
