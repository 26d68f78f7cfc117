/-
The prompt line: bytes typed on standard input become lines in a queue.

`PushCharPrompt` works on one byte at a time, with a line buffer and a queue, and
swallows two more bytes after an `ESC`.  `lines` and `unfinished` say the same of a
whole byte string at once: drop the escapes, split at the line ends, and let every
backspace cancel a byte.

* `lines_of_end`, `lines_of_other` — the offline definitions, one byte longer;
* `prompt_lines` — at every moment the polled prompts and the queue are the lines of
  the bytes consumed so far and the buffer is the unfinished one, whatever the
  polls; a poll gives the front of the queue, if there is one; without the polls the
  same lines come out.
-/
import BsdGdf.DisplayConsole
import BsdGdf.Pieces
import BsdGdf.Runs

namespace Gdf

open Runs Pieces

/-! ### The lines of a byte string -/

/-- Drop every `ESC` with the two bytes after it. -/
def dropEsc : Bytes → Bytes
  | [] => []
  | b :: rest =>
    if b = ESC then
      match rest with
      | _ :: _ :: rest => dropEsc rest
      | _ => []
    else b :: dropEsc rest

/-- A line ends at '\n' or '\x04'. -/
def endsLine (b : UInt8) : Bool := b = 10 ∨ b = 4

/-- Every byte 127 cancels the nearest byte before it that is left. -/
def erase (piece : Bytes) : Bytes :=
  piece.foldl (fun left b => if b = 127 then left.dropLast else left ++ [b]) []

/-- The pieces between the line ends. -/
def pieces (bytes : Bytes) : List Bytes := (dropEsc bytes).splitOnP endsLine

/-- The finished lines of a byte string. -/
def lines (bytes : Bytes) : List Bytes := (pieces bytes).dropLast.map erase

/-- What comes after the last line end. -/
def unfinished (bytes : Bytes) : Bytes := erase ((pieces bytes).getLastD [])

theorem erase_concat (piece : Bytes) (b : UInt8) :
    erase (piece ++ [b]) = if b = 127 then (erase piece).dropLast else erase piece ++ [b] := by
  simp only [erase, List.foldl_append, List.foldl_cons, List.foldl_nil]

theorem dropEsc_cons {b : UInt8} (h : b ≠ ESC) (rest : Bytes) :
    dropEsc (b :: rest) = b :: dropEsc rest := by
  rcases rest with _ | ⟨_, _ | ⟨_, _⟩⟩ <;> simp only [dropEsc, if_neg h]

theorem dropEsc_esc (rest : Bytes) : dropEsc (ESC :: rest) = dropEsc (rest.drop 2) := by
  rcases rest with _ | ⟨_, _ | ⟨_, _⟩⟩ <;> simp [dropEsc]

variable {bytes : Bytes} {b : UInt8}

/-- A line end finishes the line. -/
theorem lines_of_end {bytes' : Bytes} (h : dropEsc bytes' = dropEsc bytes ++ [b])
    (hb : endsLine b = true) :
    lines bytes' = lines bytes ++ [unfinished bytes] ∧ unfinished bytes' = [] := by
  obtain ⟨init, last, hsplit⟩ := exists_splitOnP (p := endsLine) (dropEsc bytes)
  have hpieces : pieces bytes = init ++ [last] := hsplit
  have hpieces' : pieces bytes' = init ++ [last] ++ [[]] := by
    rw [pieces, h, split_concat_end hb, hsplit]
  constructor
  · rw [lines, lines, unfinished, hpieces', hpieces, List.dropLast_concat, List.dropLast_concat,
      List.map_append, List.getLastD_concat]
    rfl
  · rw [unfinished, hpieces', List.getLastD_concat]
    rfl

/-- Any other byte goes into the unfinished line, or cancels a byte of it. -/
theorem lines_of_other {bytes' : Bytes} (h : dropEsc bytes' = dropEsc bytes ++ [b])
    (hb : endsLine b = false) :
    lines bytes' = lines bytes ∧ unfinished bytes' =
      if b = 127 then (unfinished bytes).dropLast else unfinished bytes ++ [b] := by
  obtain ⟨init, last, hsplit⟩ := exists_splitOnP (p := endsLine) (dropEsc bytes)
  have hpieces : pieces bytes = init ++ [last] := hsplit
  have hpieces' : pieces bytes' = init ++ [last ++ [b]] := by
    rw [pieces, h, split_concat_other hb _ hsplit]
  constructor
  · rw [lines, lines, hpieces', hpieces, List.dropLast_concat, List.dropLast_concat]
  · rw [unfinished, unfinished, hpieces', hpieces, List.getLastD_concat, List.getLastD_concat,
      erase_concat]

theorem lines_congr {bytes' : Bytes} (h : dropEsc bytes' = dropEsc bytes) :
    lines bytes' = lines bytes ∧ unfinished bytes' = unfinished bytes := by
  rw [lines, lines, unfinished, unfinished, pieces, pieces, h]
  exact ⟨rfl, rfl⟩

/-! ### Typing and polling -/

/-- A console, and what is left on standard input. -/
structure Typing where
  con : DisplayConsole
  stdin : Bytes

/-- `PushCharPrompt(getchar())`, or `PollPromptQueue(prompt)`. -/
inductive PromptCall
  | pushCharPrompt
  | pollPromptQueue (prompt : Bytes)
  deriving DecidableEq, Repr

/-- What a call returns; `polled` has `prompt` afterwards. -/
inductive PromptRet
  | void
  | polled (b : Bool) (prompt : Bytes)
  deriving DecidableEq, Repr

/-- It is a byte that is pushed, not a poll. -/
def PromptCall.isPush : PromptCall → Bool
  | .pushCharPrompt => true
  | .pollPromptQueue _ => false

/-- Perform a call; at the end of the input nothing is pushed. -/
def Typing.step (st : Typing) : PromptCall → Typing × PromptRet
  | .pushCharPrompt =>
    match st.stdin with
    | [] => (st, .void)
    | ch :: rest =>
      let r := st.con.pushCharPrompt ch rest
      (⟨r.1, r.2⟩, .void)
  | .pollPromptQueue prompt =>
    let r := st.con.pollPromptQueue prompt
    (⟨r.1, st.stdin⟩, .polled r.2.1 r.2.2)

/-- A step of a run. -/
abbrev PromptEvent := Event Typing PromptCall PromptRet

/-- The prompt a call returned, if it did. -/
def PromptRet.prompts : PromptRet → List Bytes
  | .polled true prompt => [prompt]
  | _ => []

/-- The prompts polled so far. -/
def polled (es : List PromptEvent) : List Bytes := es.flatMap fun e => e.output.prompts

theorem polled_concat (es : List PromptEvent) (e : PromptEvent) :
    polled (es ++ [e]) = polled es ++ e.output.prompts := by
  simp [polled]

variable {st : Typing} {input consumed : Bytes} {es : List PromptEvent}

/-- What `PushCharPrompt` does with a byte. -/
theorem pushCharPrompt_cases (con : DisplayConsole) (ch : UInt8) (rest : Bytes) :
    (endsLine ch = true ∧ con.pushCharPrompt ch rest =
      ({ con with
          bIsScreenUpdated := true
          mPromptQueue := con.mPromptQueue ++ [con.mPromptBuffer]
          mPromptBuffer := [] }, rest)) ∨
    (endsLine ch = false ∧ ch ≠ ESC ∧ con.pushCharPrompt ch rest =
      ({ con with
          bIsScreenUpdated := true
          mPromptBuffer := if ch = 127 then con.mPromptBuffer.dropLast
            else con.mPromptBuffer ++ [ch] }, rest)) ∨
    (ch = ESC ∧ con.pushCharPrompt ch rest =
      ({ con with bIsScreenUpdated := true }, rest.drop 2)) := by
  simp only [DisplayConsole.pushCharPrompt]
  by_cases hend : ch = 10 ∨ ch = 4
  · exact .inl ⟨decide_eq_true hend, by rw [if_pos hend]⟩
  have hends : endsLine ch = false := decide_eq_false hend
  by_cases h127 : ch = 127
  · refine .inr (.inl ⟨hends, by rw [h127]; decide, ?_⟩)
    rw [if_neg hend, if_pos h127, if_pos h127]
    by_cases hbuf : con.mPromptBuffer.length > 0
    · rw [if_pos hbuf]
    · -- nothing to cancel
      have hnil : con.mPromptBuffer = [] := List.length_eq_zero_iff.mp (by omega)
      rw [if_neg hbuf, hnil]
      cases con
      simp_all
  by_cases hesc : ch = ESC
  · exact .inr (.inr ⟨hesc, by rw [if_neg hend, if_neg h127, if_pos hesc]⟩)
  · refine .inr (.inl ⟨hends, hesc, ?_⟩)
    rw [if_neg hend, if_neg h127, if_neg hesc, if_neg h127]

/-- The lines of what was consumed have come out or wait in the queue.  An escape has
taken all it wanted, unless the input ended before. -/
structure Consumes (input : Bytes) (es : List PromptEvent) (st : Typing) (consumed : Bytes) :
    Prop where
  input : input = consumed ++ st.stdin
  queue : polled es ++ st.con.mPromptQueue = lines consumed
  buffer : st.con.mPromptBuffer = unfinished consumed
  escaped : st.stdin = [] ∨ ∀ more, dropEsc (consumed ++ more) = dropEsc consumed ++ dropEsc more

theorem dropEsc_pushed {ch : UInt8} {rest : Bytes} (h : Consumes input es st consumed)
    (hstdin : st.stdin = ch :: rest) (more : Bytes) :
    dropEsc (consumed ++ ch :: more) = dropEsc consumed ++ dropEsc (ch :: more) := by
  rcases h.escaped with h0 | hesc
  · exact absurd (hstdin.symm.trans h0) (by simp)
  · exact hesc (ch :: more)

/-- A byte that is no escape is consumed alone, and is not dropped. -/
theorem dropEsc_one {ch : UInt8} {rest : Bytes} (h : Consumes input es st consumed)
    (hstdin : st.stdin = ch :: rest) (hesc : ch ≠ ESC) :
    dropEsc (consumed ++ [ch]) = dropEsc consumed ++ [ch] ∧
      ∀ more, dropEsc (consumed ++ [ch] ++ more) =
        dropEsc (consumed ++ [ch]) ++ dropEsc more := by
  have hone : dropEsc (consumed ++ [ch]) = dropEsc consumed ++ [ch] := by
    rw [dropEsc_pushed h hstdin [], dropEsc_cons hesc]
    rfl
  refine ⟨hone, fun more => ?_⟩
  rw [hone, List.append_assoc, List.append_assoc, List.singleton_append, List.singleton_append,
    dropEsc_pushed h hstdin more, dropEsc_cons hesc]

/-- An escape is consumed with the next two bytes, and they are dropped. -/
theorem dropEsc_escape {rest : Bytes} (h : Consumes input es st consumed)
    (hstdin : st.stdin = ESC :: rest) :
    dropEsc (consumed ++ ESC :: rest.take 2) = dropEsc consumed ∧
      (rest.drop 2 = [] ∨ ∀ more, dropEsc (consumed ++ ESC :: rest.take 2 ++ more) =
        dropEsc (consumed ++ ESC :: rest.take 2) ++ dropEsc more) := by
  have hdrop : ∀ more, dropEsc (consumed ++ ESC :: rest.take 2 ++ more) =
      dropEsc consumed ++ dropEsc ((rest.take 2 ++ more).drop 2) := by
    intro more
    rw [List.append_assoc, List.cons_append, dropEsc_pushed h hstdin, dropEsc_esc]
  have hnone : dropEsc (consumed ++ ESC :: rest.take 2) = dropEsc consumed := by
    have hnil := hdrop []
    rw [List.append_nil, List.append_nil, List.drop_eq_nil_of_le (List.length_take_le 2 rest)]
      at hnil
    rw [hnil, dropEsc, List.append_nil]
  refine ⟨hnone, ?_⟩
  by_cases hlen : rest.length ≤ 2
  · exact .inl (List.drop_eq_nil_of_le hlen)
  · refine .inr fun more => ?_
    have htwo : (rest.take 2).length = 2 := by
      rw [List.length_take]
      omega
    rw [hdrop, hnone, List.drop_left' htwo]

/-- Pushing the next byte of the input. -/
theorem consumes_push (h : Consumes input es st consumed) :
    ∃ consumed', Consumes input (es ++ [event Typing.step st .pushCharPrompt])
      (st.step .pushCharPrompt).1 consumed' := by
  have hpolled : polled (es ++ [event Typing.step st .pushCharPrompt]) = polled es := by
    rw [polled_concat]
    show polled es ++ (st.step .pushCharPrompt).2.prompts = polled es
    rw [Typing.step]
    split <;> simp [PromptRet.prompts]
  rcases hstdin : st.stdin with _ | ⟨ch, rest⟩
  · refine ⟨consumed, ?_⟩
    have hstep : (st.step .pushCharPrompt).1 = st := by rw [Typing.step, hstdin]
    rw [hstep]
    exact ⟨h.input, by rw [hpolled, h.queue], h.buffer, .inl hstdin⟩
  have hstep : (st.step .pushCharPrompt).1 =
      ⟨(st.con.pushCharPrompt ch rest).1, (st.con.pushCharPrompt ch rest).2⟩ := by
    rw [Typing.step, hstdin]
  have hinput : input = consumed ++ ch :: rest := by rw [h.input, hstdin]
  have hinput' : input = consumed ++ [ch] ++ rest := by
    rw [hinput, List.append_assoc]
    rfl
  rw [hstep]
  rcases pushCharPrompt_cases st.con ch rest with ⟨hend, heq⟩ | ⟨hother, hesc, heq⟩ | ⟨rfl, heq⟩ <;>
    rw [heq]
  · have hesc : ch ≠ ESC := by
      rintro rfl
      exact absurd hend (by decide)
    obtain ⟨hone, hescaped⟩ := dropEsc_one h hstdin hesc
    obtain ⟨hlines, hunfinished⟩ := lines_of_end hone hend
    refine ⟨consumed ++ [ch], hinput', ?_, hunfinished.symm, .inr hescaped⟩
    show _ ++ (st.con.mPromptQueue ++ [st.con.mPromptBuffer]) = _
    rw [hpolled, hlines, ← h.queue, h.buffer, List.append_assoc]
  · obtain ⟨hone, hescaped⟩ := dropEsc_one h hstdin hesc
    obtain ⟨hlines, hunfinished⟩ := lines_of_other hone hother
    refine ⟨consumed ++ [ch], hinput', ?_, ?_, .inr hescaped⟩
    · show _ ++ st.con.mPromptQueue = _
      rw [hpolled, hlines, h.queue]
    · show (if ch = 127 then st.con.mPromptBuffer.dropLast else st.con.mPromptBuffer ++ [ch]) = _
      rw [hunfinished, h.buffer]
  · obtain ⟨hnone, hescaped⟩ := dropEsc_escape h hstdin
    obtain ⟨hlines, hunfinished⟩ := lines_congr hnone
    refine ⟨consumed ++ ESC :: rest.take 2, ?_, ?_, h.buffer.trans hunfinished.symm, hescaped⟩
    · show input = _ ++ rest.drop 2
      rw [hinput, List.append_assoc, List.cons_append, List.take_append_drop]
    · show _ ++ st.con.mPromptQueue = _
      rw [hpolled, hlines, h.queue]

/-- A poll gives the front of the queue, if there is one. -/
theorem step_poll (st : Typing) (prompt : Bytes) :
    st.step (.pollPromptQueue prompt) = match st.con.mPromptQueue with
      | [] => (st, .polled false prompt)
      | front :: rest =>
        (⟨{ st.con with mPromptQueue := rest }, st.stdin⟩, .polled true front) := by
  rcases hqueue : st.con.mPromptQueue with _ | ⟨front, rest⟩ <;>
    simp only [Typing.step, DisplayConsole.pollPromptQueue, hqueue]

/-- A poll moves a line from the queue to the prompts. -/
theorem consumes_poll (h : Consumes input es st consumed) (prompt : Bytes) :
    Consumes input (es ++ [event Typing.step st (.pollPromptQueue prompt)])
      (st.step (.pollPromptQueue prompt)).1 consumed := by
  have hpolled : polled (es ++ [event Typing.step st (.pollPromptQueue prompt)]) =
      polled es ++ (st.step (.pollPromptQueue prompt)).2.prompts := polled_concat es _
  have hstep := step_poll st prompt
  rcases hqueue : st.con.mPromptQueue with _ | ⟨front, rest⟩ <;> rw [hqueue] at hstep
  · rw [hstep] at hpolled ⊢
    refine ⟨h.input, ?_, h.buffer, h.escaped⟩
    rw [hpolled, PromptRet.prompts, List.append_nil, h.queue]
    simp
  · rw [hstep] at hpolled ⊢
    refine ⟨h.input, ?_, h.buffer, h.escaped⟩
    show _ ++ rest = _
    rw [hpolled, PromptRet.prompts, List.append_assoc, List.singleton_append, ← hqueue, h.queue]

theorem consumes_step (h : ∃ consumed, Consumes input es st consumed) (c : PromptCall) :
    ∃ consumed, Consumes input (es ++ [event Typing.step st c]) (st.step c).1 consumed := by
  obtain ⟨consumed, h⟩ := h
  cases c with
  | pushCharPrompt => exact consumes_push h
  | pollPromptQueue prompt => exact ⟨consumed, consumes_poll h prompt⟩

/-- The lines consumed in a run of a console without a prompt. -/
theorem consumes_run {start : Typing} (hbuffer : start.con.mPromptBuffer = [])
    (hqueue : start.con.mPromptQueue = []) (calls : List PromptCall) :
    Always Typing.step start
      (fun es st => ∃ consumed, Consumes start.stdin es st consumed) calls := by
  have hstart : Consumes start.stdin [] start [] :=
    ⟨rfl, hqueue, hbuffer, .inr fun _ => rfl⟩
  exact always_of_step (Q := fun es st => ∃ consumed, Consumes start.stdin es st consumed)
    (P := fun _ _ _ => True) ⟨[], hstart⟩ (fun _ _ c h _ => consumes_step h c)
    (Along.of_forall fun _ _ _ _ => trivial)

/-- What `PushCharPrompt` reads does not depend on the console. -/
theorem stdin_pushCharPrompt (con : DisplayConsole) (ch : UInt8) (rest : Bytes) :
    (con.pushCharPrompt ch rest).2 = if ch = ESC then rest.drop 2 else rest := by
  rcases pushCharPrompt_cases con ch rest with ⟨hend, heq⟩ | ⟨-, hesc, heq⟩ | ⟨hesc, heq⟩
  · have hesc : ch ≠ ESC := by
      rintro rfl
      exact absurd hend (by decide)
    rw [heq, if_neg hesc]
  · rw [heq, if_neg hesc]
  · rw [heq, if_pos hesc]

/-- What is left on standard input does not depend on the polls. -/
theorem stdin_final_pushes {st st' : Typing} (h : st.stdin = st'.stdin)
    (calls : List PromptCall) :
    (final Typing.step st calls).stdin =
      (final Typing.step st' (calls.filter PromptCall.isPush)).stdin := by
  induction calls generalizing st st' with
  | nil => exact h
  | cons c calls ih =>
    cases c with
    | pushCharPrompt =>
      rw [List.filter_cons_of_pos rfl]
      have hpush : (st.step .pushCharPrompt).1.stdin = (st'.step .pushCharPrompt).1.stdin := by
        rcases hstdin : st.stdin with _ | ⟨ch, rest⟩
        · simp only [Typing.step, ← h, hstdin]
        · simp only [Typing.step, ← h, hstdin, stdin_pushCharPrompt]
      exact ih hpush
    | pollPromptQueue prompt =>
      rw [List.filter_cons_of_neg (by simp [PromptCall.isPush])]
      have hpoll : (st.step (.pollPromptQueue prompt)).1.stdin = st'.stdin := h
      exact ih hpoll

/-- Without polls there are no prompts. -/
theorem polled_pushes {calls : List PromptCall} (h : ∀ c ∈ calls, c.isPush = true)
    (st : Typing) : polled (trace Typing.step st calls) = [] := by
  induction calls generalizing st with
  | nil => rfl
  | cons c calls ih =>
    obtain ⟨hc, hcalls⟩ := List.forall_mem_cons.mp h
    cases c with
    | pollPromptQueue prompt => exact absurd hc (by simp [PromptCall.isPush])
    | pushCharPrompt =>
      have hvoid : (st.step .pushCharPrompt).2 = .void := by
        rw [Typing.step]
        split <;> rfl
      show (st.step .pushCharPrompt).2.prompts ++ polled (trace Typing.step _ calls) = []
      rw [hvoid, ih hcalls]
      rfl

/-- **Prompt lines come out complete, once and in order.**  For every byte string on
standard input and every interleaving of pushes and polls: the prompts polled and the
queue are always the lines of the bytes consumed, and the buffer is the unfinished
one; a poll returns `true` with the front of the queue, or `false` if the queue is empty;
and the run without its polls consumes the same bytes and makes the same lines. -/
theorem prompt_lines (header footer : Bytes) (headerColor footerColor : eColor)
    (width height : ℕ) (input : Bytes) (calls : List PromptCall) :
    let start : Typing :=
      ⟨DisplayConsole.new header footer headerColor footerColor width height, input⟩
    Always Typing.step start (fun es st => ∃ consumed, input = consumed ++ st.stdin ∧
      polled es ++ st.con.mPromptQueue = lines consumed ∧
      st.con.mPromptBuffer = unfinished consumed) calls ∧
    Along Typing.step start (fun _ st c => ∀ prompt, c = .pollPromptQueue prompt →
      (st.step c).2 = match st.con.mPromptQueue with
        | [] => .polled false prompt
        | front :: _ => .polled true front) calls ∧
    (let st := final Typing.step start calls
     let st' := final Typing.step start (calls.filter PromptCall.isPush)
     st.stdin = st'.stdin ∧
      polled (trace Typing.step start calls) ++ st.con.mPromptQueue = st'.con.mPromptQueue ∧
      st.con.mPromptBuffer = st'.con.mPromptBuffer) := by
  intro start
  have hrun : ∀ cs, Always Typing.step start
      (fun es st => ∃ consumed, Consumes input es st consumed) cs := consumes_run rfl rfl
  refine ⟨fun pre hpre => ?_, Along.of_forall ?_, ?_⟩
  · obtain ⟨consumed, h⟩ := hrun calls pre hpre
    exact ⟨consumed, h.input, h.queue, h.buffer⟩
  · rintro c - es st prompt rfl
    rw [step_poll]
    split <;> rfl
  · -- both runs end with the same bytes consumed, and these decide the rest
    have hstdin := stdin_final_pushes (rfl : start.stdin = start.stdin) calls
    obtain ⟨consumed, h⟩ := (hrun calls).last
    obtain ⟨consumed', h'⟩ := (hrun (calls.filter PromptCall.isPush)).last
    have hconsumed : consumed = consumed' := by
      refine List.append_cancel_right (h.input.symm.trans ?_)
      rw [hstdin]
      exact h'.input
    have hnone : polled (trace Typing.step start (calls.filter PromptCall.isPush)) = [] :=
      polled_pushes (fun c hc => (List.mem_filter.mp hc).2) start
    refine ⟨hstdin, ?_, ?_⟩
    · rw [h.queue, hconsumed, ← h'.queue, hnone, List.nil_append]
    · rw [h.buffer, hconsumed, ← h'.buffer]

/-- "ab", a backspace, Enter; an escape sequence that takes a line end with it. -/
example : lines [97, 98, 127, 10, 27, 91, 10, 99] = [[97]] ∧
    unfinished [97, 98, 127, 10, 27, 91, 10, 99] = [99] := by decide

/-! ### All prompts of an input -/

/-- All of standard input was read, and all prompts were polled. -/
def Typing.Done (st : Typing) : Prop := st.stdin = [] ∧ st.con.mPromptQueue = []

/-- In every run from `start`, the prompts polled are the first of `prompts`, and all of
them once everything was read and polled. -/
def Returns (start : Typing) (prompts : List Bytes) : Prop :=
  ∀ calls, polled (trace Typing.step start calls) <+: prompts ∧
    ((final Typing.step start calls).Done → polled (trace Typing.step start calls) = prompts)

theorem exists_read (st : Typing) : ∃ calls, (final Typing.step st calls).stdin = [] := by
  -- every push shortens what is left
  suffices H : ∀ n (st : Typing), st.stdin.length ≤ n →
      ∃ calls, (final Typing.step st calls).stdin = [] from H _ st le_rfl
  intro n
  induction n with
  | zero =>
    intro st hle
    exact ⟨[], List.length_eq_zero_iff.mp (Nat.le_zero.mp hle)⟩
  | succ n ih =>
    intro st hle
    rcases hstdin : st.stdin with _ | ⟨ch, rest⟩
    · exact ⟨[], hstdin⟩
    rw [hstdin, List.length_cons] at hle
    have hpush : (st.step .pushCharPrompt).1.stdin = if ch = ESC then rest.drop 2 else rest := by
      rw [← stdin_pushCharPrompt st.con ch rest]
      simp only [Typing.step, hstdin]
    have hlen : (st.step .pushCharPrompt).1.stdin.length ≤ n := by
      rw [hpush]
      split
      · rw [List.length_drop]
        omega
      · omega
    obtain ⟨calls, hcalls⟩ := ih _ hlen
    exact ⟨.pushCharPrompt :: calls, hcalls⟩

theorem exists_polled (st : Typing) (hstdin : st.stdin = []) :
    ∃ calls, (final Typing.step st calls).Done := by
  generalize hqueue : st.con.mPromptQueue = queue
  induction queue generalizing st with
  | nil => exact ⟨[], hstdin, hqueue⟩
  | cons front rest ih =>
    have hpoll : (st.step (.pollPromptQueue [])).1 =
        ⟨{ st.con with mPromptQueue := rest }, st.stdin⟩ := by
      rw [step_poll, hqueue]
    obtain ⟨calls, hcalls⟩ := ih (st.step (.pollPromptQueue [])).1 (by rw [hpoll, hstdin])
      (by rw [hpoll])
    exact ⟨.pollPromptQueue [] :: calls, hcalls⟩

/-- Every run can be continued until everything was read and polled. -/
theorem exists_done (st : Typing) : ∃ calls, (final Typing.step st calls).Done := by
  obtain ⟨reads, hreads⟩ := exists_read st
  obtain ⟨polls, hpolls⟩ := exists_polled _ hreads
  refine ⟨reads ++ polls, ?_⟩
  rw [final_append]
  exact hpolls

section Returns

variable {start : Typing} (hbuffer : start.con.mPromptBuffer = [])
  (hqueue : start.con.mPromptQueue = [])

include hbuffer hqueue

/-- What comes out of a console without a prompt are the lines of the input. -/
theorem polled_of_done {calls : List PromptCall} (h : (final Typing.step start calls).Done) :
    polled (trace Typing.step start calls) = lines start.stdin := by
  obtain ⟨hread, hpolled⟩ := h
  obtain ⟨consumed, h⟩ := (consumes_run hbuffer hqueue calls).last
  have hconsumed := h.input
  rw [hread, List.append_nil] at hconsumed
  have hlines := h.queue
  rwa [hpolled, List.append_nil, ← hconsumed] at hlines

theorem returns_iff {prompts : List Bytes} :
    Returns start prompts ↔ lines start.stdin = prompts := by
  constructor
  · intro h
    obtain ⟨calls, hcalls⟩ := exists_done start
    exact (polled_of_done hbuffer hqueue hcalls).symm.trans ((h calls).2 hcalls)
  · rintro rfl calls
    refine ⟨?_, polled_of_done hbuffer hqueue⟩
    obtain ⟨more, hmore⟩ := exists_done (final Typing.step start calls)
    rw [← final_append] at hmore
    rw [← polled_of_done hbuffer hqueue hmore, trace_append, polled, polled,
      List.flatMap_append]
    exact List.prefix_append _ _

end Returns

end Gdf
