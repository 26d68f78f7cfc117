/-
A `DisplayConsole` and the terminal it writes to.

The terminal answers `ioctl()` with its size and reads what `write()` accepts, a part of
a string or none of it.  It may be resized at any time between two calls, and its cells
and its cursor are then arbitrary.  A resize that is taken back before the next `Refresh`
goes unnoticed: the console only compares sizes.  `SetIsScreenUpdated` may make the console
render once more, or forget what it was to render.

* `watches_step` — the invariant: since the last rendering the terminal has read what
  `write()` accepted;
* `screen_shows` — after every `Refresh` that leaves nothing to write, the terminal is the
  picture of what the calls said, in the rendition that the last rendering found;
* `screen_settles` — repeated `Refresh` calls get there, within as many writes that accept
  something as there are bytes to write, and then stop writing.
-/
import BsdGdf.View

namespace Gdf

open Runs Terminal

/-- A console, the size of the window, and the terminal.  The other three are history:
what the calls amount to, the terminal as the last rendering found it, and whether it
was resized since. -/
structure Watched where
  con : DisplayConsole
  window : Winsize
  term : Screen
  view : View
  base : Screen
  reflowed : Bool

/-- A call, for which the terminal reports its own size; or the terminal is resized. -/
inductive WatchedCall
  | call (c : ConsoleCall)
  | setIsScreenUpdated (status : Bool)
  | resize (window : Winsize) (cells : ℕ → ℕ → Cell) (row col : ℕ)

/-- The call with the size that `ioctl()` reports. -/
def ConsoleCall.facing (window : Winsize) : ConsoleCall → ConsoleCall
  | .refresh _ _ wrote => .refresh window window wrote
  | c => c

namespace Watched

/-- The terminal has the size of the window. -/
def Sized (window : Winsize) (t : Screen) : Prop :=
  t.rows = window.ws_row.toNat ∧ t.cols = window.ws_col.toNat

variable (fill : Rendition → Rendition) (beyond : Bytes → Bytes)

/-- What the terminal makes of an action. -/
def see (st : Watched) : ScreenAct → Watched
  | .rendered => { st with base := st.term, reflowed := false }
  | .write _ none => st
  | .write handed (some n) => { st with term := st.term.feed fill (handed.take n) }

/-- Perform a call, or resize the terminal. -/
def step (st : Watched) : WatchedCall → Watched × ConsoleReply
  | .call c =>
    let r := st.con.step beyond (c.facing st.window)
    (r.2.acts.foldl (see fill) { st with con := r.1, view := st.view.next c }, r.2)
  | .setIsScreenUpdated status =>
    ({ st with con := st.con.setIsScreenUpdated status }, ⟨.void, []⟩)
  | .resize window cells row col =>
    -- the rendition and an unfinished control sequence stay
    ({ st with
        window := window
        term := { st.term with
          rows := window.ws_row.toNat, cols := window.ws_col.toNat, cells, row, col }
        reflowed := true }, ⟨.void, []⟩)

/-- A new console in front of a terminal, in whatever state that is. -/
def start (header footer : Bytes) (headerColor footerColor : eColor) (width₀ height₀ : ℕ)
    (window : Winsize) (t : Screen) : Watched where
  con := DisplayConsole.new header footer headerColor footerColor width₀ height₀
  window := window
  term := t
  view := View.new header footer headerColor footerColor
  base := t
  reflowed := false

/-- The next `Refresh` renders. -/
def renders (st : Watched) : Bool :=
  st.con.bIsScreenUpdated || (st.con.updateConsoleSize st.window).2

/-- The bytes that `Refresh` calls have yet to write. -/
def left (st : Watched) : ℕ :=
  if st.renders then strlen ((st.con.updateConsoleSize st.window).1.screenString beyond)
  else if st.con.bIsScreenBufferRemain then
    strlen (st.con.mScreenBuffer.drop st.con.mScreenBufferIndex)
  else 0

/-- The picture of what the calls amount to, on a terminal that had a rendition `before`. -/
def picture (st : Watched) (before : Rendition) : Screen :=
  st.view.drawn fill st.window.ws_row.toNat st.window.ws_col.toNat before

/-- The terminal is this picture, in the rendition that the last rendering found.  It looks
as without one exactly if the view hides it. -/
def Shows (st : Watched) : Prop :=
  st.term = st.picture fill st.base.rendition ∧
    (st.term.Looks (st.picture fill .plain) ↔
      st.view.Hides fill st.window.ws_row.toNat st.window.ws_col.toNat st.base.rendition)

end Watched

namespace WatchedCall

/-- It is a `Refresh`. -/
def isRefresh : WatchedCall → Bool
  | .call (.refresh _ _ _) => true
  | _ => false

/-- It takes a mark back, if there is one. -/
def unmarks : WatchedCall → Bool
  | .setIsScreenUpdated status => !status
  | _ => false

/-- It is a `Refresh` whose `write()`, if it comes to one, accepts something. -/
def accepts : WatchedCall → Bool
  | .call (.refresh _ _ (some n)) => 0 < n
  | _ => false

/-- The texts and keys are printable. -/
def Plain : WatchedCall → Prop
  | .call c => c.Plain
  | _ => True

/-- What the console does to the screen. -/
def acts (beyond : Bytes → Bytes) (st : Watched) : WatchedCall → List ScreenAct
  | .call c => (st.con.step beyond (c.facing st.window)).2.acts
  | _ => []

/-- The terminal keeps the contract of `write()`. -/
def WriteOk (beyond : Bytes → Bytes) (st : Watched) (c : WatchedCall) : Prop :=
  ∀ act ∈ c.acts beyond st, act.Ok

/-- A `Refresh` does not miss a resize: the sizes differ, or something is marked.  And no
mark is taken back before that. -/
def Notices (st : Watched) (c : WatchedCall) : Prop :=
  (c.isRefresh = true → st.reflowed = true → st.renders = true) ∧
    (c.unmarks = true → st.con.bIsScreenUpdated = false)

instance (beyond : Bytes → Bytes) (st : Watched) (c : WatchedCall) :
    Decidable (c.WriteOk beyond st) :=
  inferInstanceAs (Decidable (∀ act ∈ c.acts beyond st, act.Ok))

instance (st : Watched) (c : WatchedCall) : Decidable (c.Notices st) :=
  inferInstanceAs (Decidable ((_ → _ → _) ∧ (_ → _)))

instance : DecidablePred Plain
  | .call _ => inferInstanceAs (Decidable (ConsoleCall.Plain _))
  | .setIsScreenUpdated _ => isTrue trivial
  | .resize _ _ _ _ => isTrue trivial

end WatchedCall

variable {beyond : Bytes → Bytes} {fill : Rendition → Rendition} {st : Watched} {seen : Bytes}

/-! ### The invariant -/

/-- The console depicts the view; since the last rendering the terminal read what
`write()` accepted, unless it was resized; and nothing is ever left to write but bytes. -/
structure Watches (beyond : Bytes → Bytes) (fill : Rendition → Rendition) (seen : Bytes)
    (st : Watched) : Prop where
  depicts : Depicts st.con st.view
  plain : st.view.Plain
  shown : Shown beyond seen st.con
  sized : Watched.Sized st.window st.term
  read : st.reflowed = false → st.term = st.base.feed fill seen
  rest : st.con.bIsScreenUpdated = false → st.con.bIsScreenBufferRemain = true →
    st.con.mScreenBufferIndex < strlen st.con.mScreenBuffer
  size : st.reflowed = false → st.con.bIsScreenUpdated = false →
    (st.con.updateConsoleSize st.window).2 = false

theorem updateConsoleSize_false_iff (con : DisplayConsole) (window : Winsize) :
    (con.updateConsoleSize window).2 = false ↔
      con.mConsoleWidth = window.ws_col.toNat ∧ con.mConsoleHeight = window.ws_row.toNat := by
  rw [DisplayConsole.updateConsoleSize]
  split_ifs with hsize
  · refine ⟨fun h => absurd h (by simp), fun h => ?_⟩
    rcases hsize with hsize | hsize
    · exact absurd h.1 hsize
    · exact absurd h.2 hsize
  · exact ⟨fun _ => ⟨not_not.mp (not_or.mp hsize).1, not_not.mp (not_or.mp hsize).2⟩, fun _ => rfl⟩

/-- A rendering is not empty, holds no NUL, and draws the view. -/
theorem rendering (beyond : Bytes → Bytes) (fill : Rendition → Rendition)
    (h : Depicts st.con st.view) (hv : st.view.Plain) :
    let screen := (st.con.updateConsoleSize st.window).1.screenString beyond
    cstr screen = screen ∧ 0 < strlen screen ∧
      ∀ t, Watched.Sized st.window t → t.feed fill screen = st.picture fill t.rendition := by
  have hsized := updateConsoleSize_eq st.con st.window
  intro screen
  set con := (st.con.updateConsoleSize st.window).1
  have hdepicts : Depicts con st.view := h.alike (alike_updateConsoleSize st.con st.window)
  have hheight : con.mConsoleHeight = st.window.ws_row.toNat := by rw [hsized]
  have hwidth : con.mConsoleWidth = st.window.ws_col.toNat := by rw [hsized]
  have hint : con.mConsoleHeight < 2 ^ 31 := by
    rw [hheight]
    exact lt_trans (UInt16.toNat_lt _) (by decide)
  have hcstr : cstr screen = screen :=
    cstr_eq_self_iff.mpr (displayed_screenString hdepicts hv hint).zero_notMem
  refine ⟨hcstr, ?_, fun t ht => ?_⟩
  · have hle := (clearScreen_isPrefix beyond hint).length_le
    rw [strlen, hcstr]
    exact lt_of_lt_of_le (show 0 < clearScreen.length from Nat.succ_pos _) hle
  · rw [feed_screenString hdepicts hv t (hheight.trans ht.1.symm) (hwidth.trans ht.2.symm)
      (by rw [ht.1, ← hheight]; exact hint), ht.1, ht.2]
    rfl

/-! ### Actions on the terminal -/

theorem see_accept (act : ScreenAct)
    (hread : st.reflowed = false → st.term = st.base.feed fill seen) :
    (st.see fill act).reflowed = false →
      (st.see fill act).term = (st.see fill act).base.feed fill (act.accept seen) := by
  rcases act with _ | ⟨handed, _ | n⟩
  · intro _
    rfl
  · exact hread
  · intro hsame
    show st.term.feed fill (handed.take n) = st.base.feed fill (seen ++ handed.take n)
    rw [feed_append, hread hsame]

theorem see_con (fill : Rendition → Rendition) (st : Watched) (con : DisplayConsole)
    (acts : List ScreenAct) :
    acts.foldl (Watched.see fill) { st with con := con } =
      { acts.foldl (Watched.see fill) st with con := con } := by
  induction acts generalizing st with
  | nil => rfl
  | cons act acts ih =>
    have hsee : Watched.see fill { st with con := con } act =
        { st.see fill act with con := con } := by
      rcases act with _ | ⟨handed, _ | n⟩ <;> rfl
    rw [List.foldl_cons, List.foldl_cons, hsee, ih]

/-! ### The two halves of `Refresh` -/

/-- The console after it has rendered for a window. -/
def DisplayConsole.renderedAt (beyond : Bytes → Bytes) (con : DisplayConsole) (window : Winsize) :
    DisplayConsole :=
  { con.renderScreenString beyond window with
    mScreenBufferIndex := 0
    bIsScreenBufferRemain := true
    bIsScreenUpdated := false }

/-- The first half of `Refresh`, if both `ioctl()` calls report the same. -/
theorem rerender_eq (beyond : Bytes → Bytes) (con : DisplayConsole) (window : Winsize) :
    con.rerender beyond window window =
      if (con.bIsScreenUpdated || (con.updateConsoleSize window).2) = true then
        (con.renderedAt beyond window, [.rendered])
      else (con, []) := by
  by_cases hup : con.bIsScreenUpdated = true
  · rw [DisplayConsole.rerender, hup]
    rfl
  have hup' : con.bIsScreenUpdated = false := by simpa using hup
  rcases updateConsoleSize_cases con window with ⟨hsame, hcon⟩ | hchanged
  · simp only [DisplayConsole.rerender, hup', hsame, hcon, Bool.or_self, Bool.false_eq_true,
      if_false]
  · -- the size that is rendered is the one that was recorded
    have htwice : (con.updateConsoleSize window).1.renderScreenString beyond window =
        con.renderScreenString beyond window := by
      have hsized : ((con.updateConsoleSize window).1.updateConsoleSize window).1 =
          (con.updateConsoleSize window).1 := by
        rw [updateConsoleSize_eq, updateConsoleSize_eq]
      rw [DisplayConsole.renderScreenString, hsized]
      rfl
    simp only [DisplayConsole.rerender, hup', hchanged, Bool.or_true, Bool.false_eq_true, if_false,
      if_true, htwice]
    rfl

/-- After the first half of `Refresh`. -/
def Watched.rendered (beyond : Bytes → Bytes) (st : Watched) : Watched :=
  if st.renders then
    { st with
      con := st.con.renderedAt beyond st.window
      base := st.term
      reflowed := false }
  else st

/-- A `Refresh` renders if it must, and then writes. -/
theorem step_refresh (fill : Rendition → Rendition) (beyond : Bytes → Bytes) (st : Watched)
    (window window' : Winsize) (wrote : Option ℕ) :
    let st₁ := st.rendered beyond
    let r := st₁.con.flush wrote
    (st.step fill beyond (.call (.refresh window window' wrote))).1 =
        { r.2.foldl (Watched.see fill) st₁ with con := r.1 } ∧
      WatchedCall.acts beyond st (.call (.refresh window window' wrote)) =
        (if st.renders then [.rendered] else []) ++ r.2 := by
  have hrerender : st.con.rerender beyond st.window st.window =
      ((st.rendered beyond).con, if st.renders then [.rendered] else []) := by
    rw [rerender_eq, Watched.rendered]
    show (if st.renders = true then _ else _) = _
    by_cases hr : st.renders = true
    · rw [if_pos hr, if_pos hr, if_pos hr]
    · rw [if_neg hr, if_neg hr, if_neg hr]
  have hseen : (if st.renders then [.rendered] else []).foldl (Watched.see fill) st =
      { st.rendered beyond with con := st.con } := by
    rw [Watched.rendered]
    by_cases hr : st.renders = true
    · rw [if_pos hr, if_pos hr]
      rfl
    · rw [if_neg hr, if_neg hr]
      rfl
  intro st₁ r
  have hrefresh : st.con.refresh beyond st.window st.window wrote =
      (r.1, (if st.renders then [.rendered] else []) ++ r.2) := by
    rw [DisplayConsole.refresh, hrerender]
  refine ⟨?_, congrArg Prod.snd hrefresh⟩
  show (st.con.refresh beyond st.window st.window wrote).2.foldl (Watched.see fill)
    { st with con := (st.con.refresh beyond st.window st.window wrote).1 } = _
  rw [see_con, hrefresh, List.foldl_append, hseen, see_con]

/-- The first half keeps the invariant; nothing is marked afterwards, and the bytes that
are left to write are those of the new rendering. -/
theorem watches_rendered (h : Watches beyond fill seen st)
    (hnotice : st.reflowed = true → st.renders = true) :
    (∃ seen, Watches beyond fill seen (st.rendered beyond)) ∧
      (st.rendered beyond).reflowed = false ∧
      (st.rendered beyond).con.bIsScreenUpdated = false ∧
      (st.rendered beyond).left beyond = st.left beyond := by
  by_cases hr : st.renders = true
  · obtain ⟨hcstr, hpos, hdraws⟩ := rendering beyond fill h.depicts h.plain
    have hsized := updateConsoleSize_eq st.con st.window
    have hcon : st.con.renderedAt beyond st.window =
        { st.con with
          mConsoleWidth := st.window.ws_col.toNat
          mConsoleHeight := st.window.ws_row.toNat
          mScreenBuffer := (st.con.updateConsoleSize st.window).1.screenString beyond
          mScreenBufferIndex := 0
          bIsScreenBufferRemain := true
          bIsScreenUpdated := false } := by
      rw [DisplayConsole.renderedAt, DisplayConsole.renderScreenString, hsized]
    have hsize : ((st.con.renderedAt beyond st.window).updateConsoleSize st.window).2 = false := by
      rw [updateConsoleSize_false_iff, hcon]
      exact ⟨rfl, rfl⟩
    have hst : st.rendered beyond = { st with
        con := st.con.renderedAt beyond st.window, base := st.term, reflowed := false } := by
      rw [Watched.rendered, if_pos hr]
    have hbuffer : (st.con.updateConsoleSize st.window).1.screenString beyond =
        (st.con.renderedAt beyond st.window).screenString beyond := by
      rw [hcon, hsized]
      exact DisplayConsole.screenString_congr beyond rfl rfl rfl rfl rfl rfl rfl
    have hup : (st.con.renderedAt beyond st.window).bIsScreenUpdated = false := rfl
    have hremain : (st.con.renderedAt beyond st.window).bIsScreenBufferRemain = true := rfl
    refine ⟨⟨[], ?_⟩, ?_, ?_, ?_⟩
    · rw [hst]
      refine ⟨?_, h.plain, ⟨fun _ => ?_, fun _ => Nat.zero_le _, fun _ => ?_, fun hno => ?_⟩,
        h.sized, fun _ => rfl, fun _ _ => ?_, fun _ _ => hsize⟩
      · show Depicts (st.con.renderedAt beyond st.window) st.view
        rw [hcon]
        exact h.depicts.alike ⟨rfl, rfl, rfl, rfl, rfl⟩
      · exact hbuffer
      · exact List.take_zero.symm
      · exact absurd (hremain.symm.trans hno) (by simp)
      · exact hpos
    · rw [hst]
    · rw [hst]
      exact hup
    · have hr' : (st.rendered beyond).renders = false := by
        rw [hst, Watched.renders, hup, hsize]
        rfl
      rw [Watched.left, if_neg (by rw [hr']; exact Bool.false_ne_true), Watched.left, if_pos hr,
        hst]
      exact if_pos hremain
  · have hst : st.rendered beyond = st := by rw [Watched.rendered, if_neg hr]
    have hno : st.con.bIsScreenUpdated = false := by
      simp only [Watched.renders, Bool.or_eq_true, not_or, Bool.not_eq_true] at hr
      exact hr.1
    rw [hst]
    refine ⟨⟨seen, h⟩, ?_, hno, rfl⟩
    cases hre : st.reflowed with
    | false => rfl
    | true => exact absurd (hnotice hre) hr

/-- The second half keeps the invariant, and a successful write leaves less. -/
theorem watches_flush (h : Watches beyond fill seen st) (hre : st.reflowed = false)
    (hup : st.con.bIsScreenUpdated = false) {wrote : Option ℕ}
    (hok : ∀ act ∈ (st.con.flush wrote).2, act.Ok) :
    let st' := { (st.con.flush wrote).2.foldl (Watched.see fill) st with
      con := (st.con.flush wrote).1 }
    (∃ seen, Watches beyond fill seen st') ∧ st'.reflowed = false ∧
      st'.con.bIsScreenUpdated = false ∧ st'.view = st.view ∧
      st'.left beyond ≤ st.left beyond - min (wrote.getD 0) 1 ∧
      (st.con.bIsScreenBufferRemain = false → st' = st ∧ (st.con.flush wrote).2 = []) := by
  have hsize := h.size hre hup
  -- the recorded size does not change, so nothing is rendered
  have hleft : ∀ st' : Watched, st'.con.bIsScreenUpdated = false → st'.window = st.window →
      st'.con.mConsoleWidth = st.con.mConsoleWidth →
      st'.con.mConsoleHeight = st.con.mConsoleHeight →
      (st'.con.updateConsoleSize st'.window).2 = false ∧
      st'.left beyond = if st'.con.bIsScreenBufferRemain then
        strlen (st'.con.mScreenBuffer.drop st'.con.mScreenBufferIndex) else 0 := by
    intro st' hup' hwindow hwidth hheight
    have hsize' : (st'.con.updateConsoleSize st'.window).2 = false := by
      rw [updateConsoleSize_false_iff] at hsize ⊢
      rw [hwindow, hwidth, hheight]
      exact hsize
    have hr : ¬ st'.renders = true := by
      rw [Watched.renders, hup', hsize']
      exact Bool.false_ne_true
    exact ⟨hsize', by rw [Watched.left, if_neg hr]⟩
  obtain ⟨-, hnow⟩ := hleft st hup rfl rfl rfl
  have hshown := h.shown.flush hok
  have hd := h.depicts
  rcases flush_cases st.con wrote with ⟨hr, heq⟩ | ⟨hr, hwrote, heq⟩ | ⟨n, hr, hwrote, hne, heq⟩ |
    ⟨hr, hwrote, heq⟩ <;> rw [heq] at hok hshown ⊢
  · refine ⟨⟨seen, h⟩, hre, hup, rfl, ?_, fun _ => ⟨rfl, rfl⟩⟩
    show st.left beyond ≤ _
    rw [hnow, hr, if_neg Bool.false_ne_true]
    exact Nat.zero_le _
  · obtain ⟨hsize', hleft'⟩ := hleft { st with con := { st.con with bIsFailed := true } }
      hup rfl rfl rfl
    refine ⟨⟨seen, hd.alike ⟨rfl, rfl, rfl, rfl, rfl⟩, h.plain, hshown, h.sized, h.read, h.rest,
      fun _ _ => hsize'⟩, hre, hup, rfl, ?_,
      fun hno => absurd (hr.symm.trans hno) (by simp)⟩
    rw [hwrote]
    show Watched.left beyond { st with con := { st.con with bIsFailed := true } } ≤ st.left beyond
    rw [hleft', hnow]
  · -- a part is written
    set handed := cstr (st.con.mScreenBuffer.drop st.con.mScreenBufferIndex) with hhanded
    have hle : n ≤ strlen (st.con.mScreenBuffer.drop st.con.mScreenBufferIndex) :=
      hok _ (List.mem_singleton_self _)
    have hindex := add_strlen_drop (h.shown.index_le hr)
    obtain ⟨hsize', hleft'⟩ := hleft { st with
      term := st.term.feed fill (handed.take n)
      con := { st.con with mScreenBufferIndex := st.con.mScreenBufferIndex + n } } hup rfl rfl rfl
    obtain ⟨hrows, hcols⟩ := feed_size fill st.term (handed.take n)
    refine ⟨⟨_, hd.alike ⟨rfl, rfl, rfl, rfl, rfl⟩, h.plain, hshown,
      ⟨hrows.trans h.sized.1, hcols.trans h.sized.2⟩,
      see_accept (.write handed (some n)) h.read, fun _ _ => ?_, fun _ _ => hsize'⟩,
      hre, hup, rfl, ?_, fun hno => absurd (hr.symm.trans hno) (by simp)⟩
    · show st.con.mScreenBufferIndex + n < strlen st.con.mScreenBuffer
      omega
    · have hindex' := add_strlen_drop
        (show st.con.mScreenBufferIndex + n ≤ strlen st.con.mScreenBuffer by omega)
      rw [hwrote]
      show Watched.left beyond { st with
        term := st.term.feed fill (handed.take n)
        con := { st.con with mScreenBufferIndex := st.con.mScreenBufferIndex + n } } ≤
          st.left beyond - min n 1
      rw [hleft', hnow, hr, if_pos rfl, if_pos rfl]
      show strlen (st.con.mScreenBuffer.drop (st.con.mScreenBufferIndex + n)) ≤ _
      omega
  · -- all of it is written
    set handed := cstr (st.con.mScreenBuffer.drop st.con.mScreenBufferIndex) with hhanded
    set n := strlen (st.con.mScreenBuffer.drop st.con.mScreenBufferIndex)
    obtain ⟨hsize', hleft'⟩ := hleft { st with
      term := st.term.feed fill (handed.take n)
      con := { st.con with bIsScreenBufferRemain := false, mScreenBufferIndex := 0 } }
      hup rfl rfl rfl
    obtain ⟨hrows, hcols⟩ := feed_size fill st.term (handed.take n)
    rw [hwrote] at hshown ⊢
    refine ⟨⟨_, hd.alike ⟨rfl, rfl, rfl, rfl, rfl⟩, h.plain, hshown,
      ⟨hrows.trans h.sized.1, hcols.trans h.sized.2⟩,
      see_accept (.write handed (some n)) h.read, fun _ hyes => absurd hyes (by simp),
      fun _ _ => hsize'⟩,
      hre, hup, rfl, ?_, fun hno => absurd (hr.symm.trans hno) (by simp)⟩
    show Watched.left beyond { st with
      term := st.term.feed fill (handed.take n)
      con := { st.con with bIsScreenBufferRemain := false, mScreenBufferIndex := 0 } } ≤ _
    rw [hleft', if_neg Bool.false_ne_true]
    exact Nat.zero_le _

/-! ### One call -/

theorem eq_refresh {c : WatchedCall} (hc : c.isRefresh = true) :
    ∃ window window' wrote, c = .call (.refresh window window' wrote) := by
  cases c with
  | setIsScreenUpdated => exact absurd hc Bool.false_ne_true
  | resize => exact absurd hc Bool.false_ne_true
  | call c =>
    cases c with
    | refresh window window' wrote => exact ⟨window, window', wrote, rfl⟩
    | _ => exact absurd hc Bool.false_ne_true

theorem watches_refresh (h : Watches beyond fill seen st) {c : WatchedCall}
    (hc : c.isRefresh = true) (hok : c.WriteOk beyond st)
    (hnotice : st.reflowed = true → st.renders = true) :
    let st' := (st.step fill beyond c).1
    (∃ seen, Watches beyond fill seen st') ∧ st'.reflowed = false ∧
      st'.con.bIsScreenUpdated = false ∧ st'.view = st.view ∧
      st'.left beyond ≤ st.left beyond - c.accepts.toNat := by
  obtain ⟨window, window', wrote, rfl⟩ := eq_refresh hc
  obtain ⟨⟨seen₁, h₁⟩, hre₁, hup₁, hleft₁⟩ := watches_rendered h hnotice
  obtain ⟨hstep, hacts⟩ := step_refresh fill beyond st window window' wrote
  have hview : (st.rendered beyond).view = st.view := by
    rw [Watched.rendered]
    split_ifs <;> rfl
  have hflushed : ∀ act ∈ ((st.rendered beyond).con.flush wrote).2,
      act ∈ WatchedCall.acts beyond st (.call (.refresh window window' wrote)) := by
    intro act hact
    rw [hacts]
    exact List.mem_append_right _ hact
  obtain ⟨hwatches, hre, hup, hsame, hleft, -⟩ := watches_flush h₁ hre₁ hup₁
    fun act hact => hok act (hflushed act hact)
  intro st'
  have hst' : st' = _ := hstep
  rw [hst']
  refine ⟨hwatches, hre, hup, hsame.trans hview, ?_⟩
  have haccepts : (WatchedCall.call (.refresh window window' wrote)).accepts.toNat =
      min (wrote.getD 0) 1 := by
    rcases wrote with _ | _ | n
    · rfl
    · rfl
    · exact (Nat.min_eq_right (Nat.succ_le_succ (Nat.zero_le n))).symm
  rw [haccepts, ← hleft₁]
  exact hleft

/-- A call that is no `Refresh` does nothing to the screen; it marks it, or changes only
the queue of finished prompts. -/
theorem step_other (beyond : Bytes → Bytes) (con : DisplayConsole) {c : ConsoleCall}
    (hc : (WatchedCall.call c).isRefresh = false) (window : Winsize) :
    c.facing window = c ∧ (con.step beyond c).2.acts = [] ∧
      ((con.step beyond c).1.bIsScreenUpdated = true ∨
        ∃ queue, (con.step beyond c).1 = { con with mPromptQueue := queue }) := by
  cases c with
  | refresh => exact absurd hc (by simp [WatchedCall.isRefresh])
  | pushCharPrompt ch stdin => exact ⟨rfl, rfl, .inl (pushCharPrompt_marks con ch stdin).1⟩
  | pollPromptQueue prompt =>
    refine ⟨rfl, rfl, .inr ?_⟩
    show ∃ queue, (con.pollPromptQueue prompt).1 = _
    rw [DisplayConsole.pollPromptQueue]
    split
    · exact ⟨con.mPromptQueue, rfl⟩
    · exact ⟨_, rfl⟩
  | _ => exact ⟨rfl, rfl, .inl rfl⟩

/-- **Every call, and every resize, keeps the invariant.** -/
theorem watches_step (h : Watches beyond fill seen st) {c : WatchedCall} (hplain : c.Plain)
    (hok : c.WriteOk beyond st) (hnotice : c.Notices st) :
    ∃ seen, Watches beyond fill seen (st.step fill beyond c).1 := by
  cases c with
  | setIsScreenUpdated status =>
    cases status with
    | true =>
      -- the string it has is no longer claimed to be the one to show
      have hup : (st.con.setIsScreenUpdated true).bIsScreenUpdated = true := rfl
      exact ⟨seen, h.depicts.alike ⟨rfl, rfl, rfl, rfl, rfl⟩, h.plain,
        h.shown.of_updated hup rfl rfl rfl, h.sized, h.read,
        fun hno => absurd (hup.symm.trans hno) Bool.false_ne_true.symm,
        fun _ hno => absurd (hup.symm.trans hno) Bool.false_ne_true.symm⟩
    | false =>
      have hsame : (st.step fill beyond (.setIsScreenUpdated false)).1 = st := by
        show { st with con := { st.con with bIsScreenUpdated := false } } = st
        rw [← hnotice.2 rfl]
      rw [hsame]
      exact ⟨seen, h⟩
  | resize window cells row col =>
    -- what the terminal read is lost, and no longer claimed
    exact ⟨seen, h.depicts, h.plain, h.shown, ⟨rfl, rfl⟩,
      fun hno => absurd hno (by simp [Watched.step]), h.rest,
      fun hno => absurd hno (by simp [Watched.step])⟩
  | call c =>
    cases hc : (WatchedCall.call c).isRefresh with
    | true => exact (watches_refresh h hc hok (hnotice.1 hc)).1
    | false =>
      obtain ⟨hfacing, hacts, hcon⟩ := step_other beyond st.con hc st.window
      have hstep : (st.step fill beyond (.call c)).1 =
          { st with con := (st.con.step beyond c).1, view := st.view.next c } := by
        show (st.con.step beyond (c.facing st.window)).2.acts.foldl _ _ = _
        rw [hfacing, hacts]
        rfl
      have hshown : Shown beyond seen (st.con.step beyond c).1 := by
        have hnext := h.shown.step (c := c) fun act hact => absurd hact (by rw [hacts]; simp)
        rwa [hacts] at hnext
      rw [hstep]
      refine ⟨seen, depicts_step h.depicts c, plain_next h.plain hplain, hshown, h.sized, h.read,
        fun hup => ?_, fun hre hup => ?_⟩
      · rcases hcon with hmarked | ⟨queue, hcon⟩
        · exact absurd (hmarked.symm.trans hup) (by simp)
        · have hrest := h.rest
          show (st.con.step beyond c).1.bIsScreenBufferRemain = true → _
          rw [hcon] at hup ⊢
          exact hrest hup
      · rcases hcon with hmarked | ⟨queue, hcon⟩
        · exact absurd (hmarked.symm.trans hup) (by simp)
        · have hsize := h.size hre
          show ((st.con.step beyond c).1.updateConsoleSize st.window).2 = false
          rw [hcon] at hup ⊢
          have hsize' := (updateConsoleSize_false_iff _ _).mp (hsize hup)
          exact (updateConsoleSize_false_iff _ _).mpr hsize'

/-! ### Nothing left to write -/

/-- When everything is written, the terminal shows the view. -/
theorem shows_of_written (h : Watches beyond fill seen st) (hre : st.reflowed = false)
    (hup : st.con.bIsScreenUpdated = false) (hdone : st.con.bIsScreenBufferRemain = false) :
    st.Shows fill := by
  obtain ⟨hcstr, -, hdraws⟩ := rendering beyond fill h.depicts h.plain
  have hsame : (st.con.updateConsoleSize st.window).1 = st.con := by
    rcases updateConsoleSize_cases st.con st.window with ⟨-, hcon⟩ | hchanged
    · exact hcon
    · exact absurd (hchanged.symm.trans (h.size hre hup)) (by simp)
  rw [hsame] at hcstr hdraws
  have hterm := h.read hre
  rw [h.shown.wholly hdone, h.shown.current hup, hcstr] at hterm
  have hsized : Watched.Sized st.window st.base := by
    obtain ⟨hrows, hcols⟩ := feed_size fill st.base (st.con.screenString beyond)
    rw [← hterm] at hrows hcols
    exact ⟨hrows.symm.trans h.sized.1, hcols.symm.trans h.sized.2⟩
  have hpicture := hterm.trans (hdraws st.base hsized)
  refine ⟨hpicture, ?_⟩
  rw [hpicture]
  exact drawn_looks_iff h.plain st.base.rendition

/-- There are bytes left to write as long as a `Refresh` would render or write. -/
theorem written_of_left (h : Watches beyond fill seen st) (hleft : st.left beyond = 0) :
    st.renders = false ∧ st.con.bIsScreenBufferRemain = false := by
  obtain ⟨-, hpos, -⟩ := rendering beyond fill h.depicts h.plain
  rw [Watched.left] at hleft
  by_cases hr : st.renders = true
  · rw [if_pos hr] at hleft
    omega
  rw [if_neg hr] at hleft
  have hr' : st.renders = false := by simpa using hr
  refine ⟨hr', ?_⟩
  by_contra hremain
  have hremain' : st.con.bIsScreenBufferRemain = true := by simpa using hremain
  have hup : st.con.bIsScreenUpdated = false := by
    simp only [Watched.renders, Bool.or_eq_false_iff] at hr'
    exact hr'.1
  have hlt := h.rest hup hremain'
  have hindex := add_strlen_drop hlt.le
  rw [if_pos hremain'] at hleft
  omega

/-- Then it does neither. -/
theorem refresh_of_written (hr : st.renders = false)
    (hdone : st.con.bIsScreenBufferRemain = false) {c : WatchedCall} (hc : c.isRefresh = true) :
    st.step fill beyond c = (st, ⟨.void, []⟩) := by
  obtain ⟨window, window', wrote, rfl⟩ := eq_refresh hc
  have hrerender : st.con.rerender beyond st.window st.window = (st.con, []) := by
    rw [rerender_eq]
    exact if_neg (by rw [show (_ || _) = st.renders from rfl, hr]; exact Bool.false_ne_true)
  have hrefresh : st.con.refresh beyond st.window st.window wrote = (st.con, []) := by
    rw [DisplayConsole.refresh, hrerender]
    simp only [DisplayConsole.flush, hdone, Bool.false_eq_true, if_false, List.append_nil]
  show ((st.con.refresh beyond st.window st.window wrote).2.foldl (Watched.see fill)
    { st with con := (st.con.refresh beyond st.window st.window wrote).1 },
      (⟨.void, (st.con.refresh beyond st.window st.window wrote).2⟩ : ConsoleReply)) = _
  rw [hrefresh]
  rfl

/-! ### Whole runs -/

section Run

variable {header footer : Bytes} (headerColor footerColor : eColor) (width₀ height₀ : ℕ)
  {window : Winsize} {t : Screen} {calls : List WatchedCall}

theorem watches_start (hheader : PrintableText header) (hfooter : PrintableText footer)
    (hsized : Watched.Sized window t) :
    Watches beyond fill []
      (.start header footer headerColor footerColor width₀ height₀ window t) :=
  ⟨depicts_new header footer headerColor footerColor width₀ height₀,
    plain_new hheader hfooter headerColor footerColor,
    ⟨fun hno => absurd hno (by simp [Watched.start, DisplayConsole.new]), fun _ => Nat.zero_le _,
      fun _ => rfl, fun _ => rfl⟩,
    hsized, fun _ => rfl, fun hno => absurd hno (by simp [Watched.start, DisplayConsole.new]),
    fun _ hno => absurd hno (by simp [Watched.start, DisplayConsole.new])⟩

theorem watches_run {st : Watched} (h : ∃ seen, Watches beyond fill seen st)
    (hplain : ∀ c ∈ calls, c.Plain)
    (hok : Along (Watched.step fill beyond) st (fun _ st c => c.WriteOk beyond st) calls)
    (hnotice : Along (Watched.step fill beyond) st (fun _ st c => c.Notices st) calls) :
    Always (Watched.step fill beyond) st (fun _ st => ∃ seen, Watches beyond fill seen st)
      calls := by
  have hall : Along (Watched.step fill beyond) st (fun _ st c =>
      c.Plain ∧ c.WriteOk beyond st ∧ c.Notices st) calls :=
    (along_input_iff.mpr hplain).and (hok.and hnotice)
  refine always_of_step h ?_ hall
  rintro es st c ⟨seen, h⟩ ⟨hc, hwrite, hsees⟩
  exact watches_step h hc hwrite hsees

/-- **The screen shows what the calls said.**  A new console in front of a terminal in any
state, any printable calls in any order, resizes at any time, writes that fail or are
accepted in part: if no `Refresh` misses a resize and no mark is taken back, then after
every `Refresh` that leaves nothing to write the terminal is the picture of the current
view in the rendition that the last rendering found, and looks as without this rendition
exactly if the view hides it. -/
theorem screen_shows (hheader : PrintableText header) (hfooter : PrintableText footer)
    (hsized : Watched.Sized window t) (hplain : ∀ c ∈ calls, c.Plain)
    (hok : Along (Watched.step fill beyond)
      (.start header footer headerColor footerColor width₀ height₀ window t)
      (fun _ st c => c.WriteOk beyond st) calls)
    (hnotice : Along (Watched.step fill beyond)
      (.start header footer headerColor footerColor width₀ height₀ window t)
      (fun _ st c => c.Notices st) calls) :
    Along (Watched.step fill beyond)
      (.start header footer headerColor footerColor width₀ height₀ window t)
      (fun _ st c => c.isRefresh = true →
        (st.step fill beyond c).1.con.bIsScreenBufferRemain = false →
        (st.step fill beyond c).1.Shows fill) calls := by
  have hrun := watches_run
    ⟨[], watches_start headerColor footerColor width₀ height₀ hheader hfooter hsized⟩ hplain hok
    hnotice
  intro pre c hpre hc hdone
  obtain ⟨seen, h⟩ := hrun pre ((List.prefix_append _ _).trans hpre)
  obtain ⟨⟨seen', h'⟩, hre, hup, -⟩ := watches_refresh h hc (hok pre c hpre)
    ((hnotice pre c hpre).1 hc)
  exact shows_of_written h' hre hup hdone

/-- A content on a red terminal that is resized while its screen is written. -/
theorem screen_shows_resized :
    let t : Screen := ⟨8, 18, fun _ _ => ⟨88, .plain⟩, 3, 5, ⟨none, some 41, true⟩, .csi [] 4⟩
    let start := Watched.start [71] [] .Cyan .Default 0 0 ⟨8, 18⟩ t
    let calls : List WatchedCall := [.call (.pushContent [104, 105] .Green ⟨9, 5⟩),
      .call (.refresh ⟨0, 0⟩ ⟨0, 0⟩ (some 50)), .resize ⟨9, 20⟩ (fun _ _ => ⟨89, .plain⟩) 6 0,
      .call (.refresh ⟨0, 0⟩ ⟨0, 0⟩ none), .call (.refresh ⟨0, 0⟩ ⟨0, 0⟩ (some 132))]
    Along (Watched.step id fun _ => []) start (fun _ st c => c.isRefresh = true →
      (st.step id (fun _ => []) c).1.con.bIsScreenBufferRemain = false →
      (st.step id (fun _ => []) c).1.Shows id) calls :=
  screen_shows .Cyan .Default 0 0 (by decide) (by decide) ⟨rfl, rfl⟩ (by decide) (by decide +kernel)
    (by decide +kernel)

/-- What `Refresh` calls leave to write, if nothing else happens. -/
theorem left_run {st : Watched} {more : List WatchedCall} (h : Watches beyond fill seen st)
    (hmore : ∀ c ∈ more, c.isRefresh = true) (hnotice : st.reflowed = true → st.renders = true)
    (hok : Along (Watched.step fill beyond) st (fun _ st c => c.WriteOk beyond st) more) :
    let st' := final (Watched.step fill beyond) st more
    (∃ seen, Watches beyond fill seen st') ∧ (st'.reflowed = true → st'.renders = true) ∧
      st'.view = st.view ∧ st'.left beyond ≤ st.left beyond - more.countP WatchedCall.accepts := by
  induction more generalizing st seen with
  | nil => exact ⟨⟨seen, h⟩, hnotice, rfl, le_rfl⟩
  | cons c more ih =>
    obtain ⟨hc, hrest⟩ := List.forall_mem_cons.mp hmore
    obtain ⟨hwrite, hok'⟩ := (along_cons c more).mp hok
    obtain ⟨⟨seen', h'⟩, hre, -, hview, hleft⟩ := watches_refresh h hc hwrite hnotice
    have hnotice' : (st.step fill beyond c).1.reflowed = true →
        (st.step fill beyond c).1.renders = true :=
      fun hyes => absurd (hre.symm.trans hyes) Bool.false_ne_true
    obtain ⟨hwatches, hsees, hview', hleft'⟩ := ih h' hrest hnotice' hok'
    refine ⟨hwatches, hsees, hview'.trans hview, ?_⟩
    have hcount : (c :: more).countP WatchedCall.accepts =
        more.countP WatchedCall.accepts + c.accepts.toNat := by
      rw [List.countP_cons]
      cases c.accepts <;> rfl
    show (final (Watched.step fill beyond) (st.step fill beyond c).1 more).left beyond ≤ _
    omega

/-- **The screen settles.**  After any such run, if from then on there are only `Refresh`
calls, which do not miss a last resize, whose writes may fail or accept nothing, but at
least as many accept something as there are bytes left to write: then the terminal shows
the view, and every further `Refresh` does nothing at all. -/
theorem screen_settles {more : List WatchedCall} (hheader : PrintableText header)
    (hfooter : PrintableText footer) (hsized : Watched.Sized window t)
    (hplain : ∀ c ∈ calls, c.Plain) (hmore : ∀ c ∈ more, c.isRefresh = true) :
    let start := Watched.start header footer headerColor footerColor width₀ height₀ window t
    let st := final (Watched.step fill beyond) start calls
    let st' := final (Watched.step fill beyond) st more
    Along (Watched.step fill beyond) start (fun _ st c => c.WriteOk beyond st) calls →
    Along (Watched.step fill beyond) start (fun _ st c => c.Notices st) calls →
    (st.reflowed = true → st.renders = true) →
    Along (Watched.step fill beyond) st (fun _ st c => c.WriteOk beyond st) more →
    st.left beyond ≤ more.countP WatchedCall.accepts →
    st'.Shows fill ∧ st'.view = st.view ∧
      ∀ c : WatchedCall, c.isRefresh = true → st'.step fill beyond c = (st', ⟨.void, []⟩) := by
  intro start st st' hok hnotice hsees hmoreOk henough
  obtain ⟨seen, h⟩ := (watches_run
    ⟨[], watches_start headerColor footerColor width₀ height₀ hheader hfooter hsized⟩ hplain hok
    hnotice).last
  obtain ⟨⟨seen', h'⟩, hsees', hview, hleft⟩ := left_run h hmore hsees hmoreOk
  have hzero : st'.left beyond = 0 :=
    Nat.le_zero.mp (hleft.trans (Nat.sub_eq_zero_of_le henough).le)
  obtain ⟨hr, hdone⟩ := written_of_left h' hzero
  have hre : st'.reflowed = false := by
    by_contra hyes
    exact absurd (hr.symm.trans (hsees' (by simpa using hyes))) Bool.false_ne_true
  have hup : st'.con.bIsScreenUpdated = false := by
    simp only [Watched.renders, Bool.or_eq_false_iff] at hr
    exact hr.1
  exact ⟨shows_of_written h' hre hup hdone, hview, fun c hc => refresh_of_written hr hdone hc⟩

/-- The last three bytes of a screen, not always one by one. -/
theorem screen_settles_slowly :
    let t : Screen := ⟨8, 18, fun _ _ => ⟨88, .plain⟩, 3, 5, ⟨none, some 41, true⟩, .csi [] 4⟩
    let start := Watched.start [71] [] .Cyan .Default 0 0 ⟨8, 18⟩ t
    let st := final (Watched.step id fun _ => []) start
      [.call (.pushContent [104, 105] .Green ⟨9, 5⟩), .call (.refresh ⟨0, 0⟩ ⟨0, 0⟩ (some 125))]
    let st' := final (Watched.step id fun _ => []) st
      [.call (.refresh ⟨0, 0⟩ ⟨0, 0⟩ (some 1)), .call (.refresh ⟨0, 0⟩ ⟨0, 0⟩ none),
        .call (.refresh ⟨0, 0⟩ ⟨0, 0⟩ (some 0)), .call (.refresh ⟨0, 0⟩ ⟨0, 0⟩ (some 1)),
        .call (.refresh ⟨0, 0⟩ ⟨0, 0⟩ (some 1))]
    st'.Shows id ∧ st'.view = st.view ∧ ∀ c : WatchedCall, c.isRefresh = true →
      st'.step id (fun _ => []) c = (st', ⟨.void, []⟩) :=
  screen_settles .Cyan .Default 0 0 (by decide) (by decide) ⟨rfl, rfl⟩ (by decide) (by decide)
    (by decide +kernel) (by decide +kernel) (by decide +kernel) (by decide +kernel)
    (by decide +kernel)

end Run

end Gdf
