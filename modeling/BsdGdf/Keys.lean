/-
The keys that a prompt is typed with.

A key arrives on standard input as the bytes of a character, as a byte 127, as a line
end, or as a control sequence of any length.  `PushCharPrompt` sees only bytes: a byte
127 takes one byte back, whatever character it belongs to, and an `ESC` takes the two
bytes after it, however long its sequence is.

* `lines_encode` — the lines of the bytes, line by line of the keys;
* `backspace_iff` — which deletions leave whole characters;
* `control_iff` — which control sequences leave nothing behind.
-/
import BsdGdf.BarText
import BsdGdf.LineEdit
import BsdGdf.Prompt

namespace Gdf

open Runs LineEdit Pieces

/-! ### Keys -/

/-- A character of text, in its encoding. -/
abbrev TextChar := {c : Bytes // IsTextChar c}

/-- A parameter byte of a control sequence. -/
abbrev ParamByte := {b : UInt8 // 0x30 ≤ b ∧ b ≤ 0x3F}

/-- The last byte of a control sequence. -/
abbrev FinalByte := {b : UInt8 // 0x40 ≤ b ∧ b ≤ 0x7E}

/-- A key of the terminal. -/
inductive Key
  | char (c : TextChar)
  | backspace
  | enter
  | control (params : List ParamByte) (last : FinalByte)

namespace Key

/-- What the terminal sends; a control sequence starts with `"\033["`. -/
def encode : Key → Bytes
  | char c => c.1
  | backspace => [127]
  | enter => [10]
  | control params last => ESC :: 0x5B :: (params.map Subtype.val ++ [last.1])

/-- What is left of it without the two bytes that are taken after an `ESC`. -/
def arrives : Key → Bytes
  | char c => c.1
  | backspace => [127]
  | enter => [10]
  | control params last => (params.map Subtype.val ++ [last.1]).tail

def isEnter : Key → Bool
  | enter => true
  | _ => false

def isControl : Key → Bool
  | control _ _ => true
  | _ => false

/-- It is not a character of more than one byte. -/
def isAscii : Key → Bool
  | char c => c.1.length = 1
  | _ => true

end Key

/-- The lines that Enter finishes. -/
def finishedLines (keys : List Key) : List (List Key) := (keys.splitOnP Key.isEnter).dropLast

/-- What a key is meant to do to the characters of a line. -/
def Key.edit (left : List TextChar) : Key → List TextChar
  | char c => left ++ [c]
  | backspace => left.dropLast
  | _ => left

/-- The characters that are left of a line if every Backspace deletes the last one. -/
def charsLeft (line : List Key) : List TextChar := line.foldl Key.edit []

/-- The encoding of the characters that are left of every line. -/
def typedLines (keys : List Key) : List Bytes :=
  (finishedLines keys).map fun line => (charsLeft line).flatMap Subtype.val

variable {keys line : List Key} {k : Key}

/-! ### What the bytes of a key do -/

/-- A byte that goes into the line. -/
def Plain (b : UInt8) : Prop := b ≠ ESC ∧ b ≠ 127 ∧ endsLine b = false

theorem plain_of_ge {b : UInt8} (hge : 0x20 ≤ b) (hdel : b ≠ 127) : Plain b := by
  refine ⟨?_, hdel, decide_eq_false ?_⟩
  · rintro rfl
    exact absurd hge (by decide)
  · rintro (rfl | rfl)
    · exact absurd hge (by decide)
    · exact absurd hge (by decide)

theorem plain_of_printable {b : UInt8} (h : 0x20 ≤ b ∧ b ≤ 0x7E) : Plain b := by
  refine plain_of_ge h.1 ?_
  rintro rfl
  exact absurd h.2 (by decide)

/-- The bytes of a character go into the line. -/
theorem plain_char {c : Bytes} (h : IsTextChar c) : ∀ b ∈ c, Plain b := by
  intro b hb
  by_cases hlt : b < 0x80
  · have hcs : ∀ c' ∈ [c], IsTextChar c' := fun c' hc' => List.mem_singleton.mp hc' ▸ h
    have hb' : b ∈ [c].flatten := by rwa [List.flatten_singleton]
    exact plain_of_printable (printable_of_mem hcs hb' hlt)
  · have hge := UInt8.not_lt.mp hlt
    refine plain_of_ge (UInt8.le_trans (by decide) hge) ?_
    rintro rfl
    exact absurd hge (by decide)

/-- So do the bytes of a control sequence behind its `'['`. -/
theorem plain_control (params : List ParamByte) (last : FinalByte) :
    ∀ b ∈ params.map Subtype.val ++ [last.1], Plain b := by
  intro b hb
  rcases List.mem_append.mp hb with hb | hb
  · obtain ⟨p, -, rfl⟩ := List.mem_map.mp hb
    exact plain_of_printable ⟨UInt8.le_trans (by decide) p.2.1, UInt8.le_trans p.2.2 (by decide)⟩
  · rw [List.mem_singleton.mp hb]
    exact plain_of_printable ⟨UInt8.le_trans (by decide) last.2.1, last.2.2⟩

/-- Of a key that does something else than typing, one byte arrives. -/
theorem arrives_cases (k : Key) :
    (k.isEnter = true ∧ k.arrives = [10]) ∨ (k = .backspace ∧ k.arrives = [127]) ∨
      (k.isEnter = false ∧ k ≠ .backspace ∧ ∀ b ∈ k.arrives, Plain b) := by
  cases k with
  | enter => exact .inl ⟨rfl, rfl⟩
  | backspace => exact .inr (.inl ⟨rfl, rfl⟩)
  | char c => exact .inr (.inr ⟨rfl, by simp, plain_char c.2⟩)
  | control params last =>
    refine .inr (.inr ⟨rfl, by simp, fun b hb => ?_⟩)
    exact plain_control params last b (List.mem_of_mem_tail hb)

theorem dropEsc_append {l : Bytes} (h : ∀ b ∈ l, b ≠ ESC) (rest : Bytes) :
    dropEsc (l ++ rest) = l ++ dropEsc rest := by
  induction l with
  | nil => rfl
  | cons b l ih =>
    obtain ⟨hb, hl⟩ := List.forall_mem_cons.mp h
    rw [List.cons_append, dropEsc_cons hb, ih hl]
    rfl

/-- An `ESC` takes the `'['` and one byte more of its sequence, and nothing behind it. -/
theorem dropEsc_encode (k : Key) (rest : Bytes) :
    dropEsc (k.encode ++ rest) = k.arrives ++ dropEsc rest := by
  cases k with
  | char c => exact dropEsc_append (fun b hb => (plain_char c.2 b hb).1) rest
  | backspace => exact dropEsc_cons (by decide) rest
  | enter => exact dropEsc_cons (by decide) rest
  | control params last =>
    have hplain := plain_control params last
    obtain ⟨b, l, hl⟩ : ∃ b l, params.map Subtype.val ++ [last.1] = b :: l :=
      List.exists_cons_of_ne_nil (by simp)
    rw [hl] at hplain
    rw [Key.encode, Key.arrives, hl, List.cons_append, dropEsc_esc]
    exact dropEsc_append (fun b' hb' => (hplain b' (List.mem_cons_of_mem b hb')).1) rest

theorem dropEsc_encodes (keys : List Key) :
    dropEsc (keys.flatMap Key.encode) = keys.flatMap Key.arrives := by
  induction keys with
  | nil => rfl
  | cons k keys ih => rw [List.flatMap_cons, List.flatMap_cons, dropEsc_encode, ih]

/-! ### Lines of keys -/

theorem of_mem_finished (h : line ∈ finishedLines keys) :
    ∀ k ∈ line, k ∈ keys ∧ k.isEnter = false :=
  of_mem_splitOnP line (List.mem_of_mem_dropLast h)

theorem pieces_encode (keys : List Key) :
    pieces (keys.flatMap Key.encode) =
      (keys.splitOnP Key.isEnter).map fun line => line.flatMap Key.arrives := by
  rw [pieces, dropEsc_encodes]
  refine splitOnP_flatMap (fun k hk => ?_) (fun k hk b hb => ?_) keys
  · rcases arrives_cases k with ⟨-, harr⟩ | ⟨rfl, -⟩ | ⟨hno, -⟩
    · exact ⟨10, harr, by decide⟩
    · exact absurd hk (by simp [Key.isEnter])
    · exact absurd (hk.symm.trans hno) (by simp)
  · rcases arrives_cases k with ⟨hyes, -⟩ | ⟨-, harr⟩ | ⟨-, -, hplain⟩
    · exact absurd (hyes.symm.trans hk) (by simp)
    · rw [harr] at hb
      rw [List.mem_singleton.mp hb]
      decide
    · exact (hplain b hb).2.2

/-! ### One line -/

theorem TextChar.ne_nil (c : TextChar) : c.1 ≠ [] := by
  obtain ⟨c, hc⟩ := c
  cases hc <;> exact List.cons_ne_nil _ _

/-- What a key does to the line that is typed. -/
def Key.press : Key → Press UInt8
  | .char c => .piece c.1 c.ne_nil
  | .backspace => .erase
  | .enter => .stray []
  | .control params last => .stray (params.map Subtype.val ++ [last.1]).tail

/-- What some keys of a line insert and erase, in bytes. -/
def inBytes (line : List Key) : List (Edit UInt8) := (line.map Key.press).map Press.raw

/-- What some keys of a line insert and erase, in characters. -/
def inChars (line : List Key) : List (Edit Bytes) := (line.map Key.press).map Press.meant

theorem inBytes_cons (k : Key) (line : List Key) :
    inBytes (k :: line) = k.press.raw :: inBytes line := rfl

theorem inChars_cons (k : Key) (line : List Key) :
    inChars (k :: line) = k.press.meant :: inChars line := rfl

/-- Plain bytes are appended. -/
theorem foldl_plain {text : Bytes} (h : ∀ b ∈ text, b ≠ 127) (left : Bytes) :
    text.foldl (fun left b => if b = 127 then left.dropLast else left ++ [b]) left =
      left ++ text := by
  induction text generalizing left with
  | nil => exact (List.append_nil left).symm
  | cons b text ih =>
    obtain ⟨hb, htext⟩ := List.forall_mem_cons.mp h
    rw [List.foldl_cons, if_neg hb, ih htext, List.append_assoc, List.singleton_append]

/-- The code edits a line byte by byte. -/
theorem erase_line (h : ∀ k ∈ line, k.isEnter = false) :
    erase (line.flatMap Key.arrives) = result (inBytes line) := by
  -- from any line typed before
  suffices H : ∀ left : Bytes, (line.flatMap Key.arrives).foldl
      (fun left b => if b = 127 then left.dropLast else left ++ [b]) left =
        (inBytes line).foldl Edit.apply left from H []
  induction line with
  | nil => exact fun _ => rfl
  | cons k line ih =>
    intro left
    obtain ⟨hk, hline⟩ := List.forall_mem_cons.mp h
    rw [List.flatMap_cons, List.foldl_append, ih hline, inBytes_cons, List.foldl_cons]
    refine congrArg (fun left => (inBytes line).foldl Edit.apply left) ?_
    cases k with
    | enter => exact absurd hk (by simp [Key.isEnter])
    | backspace => rfl
    | char c => exact foldl_plain (fun b hb => (plain_char c.2 b hb).2.1) left
    | control params last =>
      have hplain := plain_control params last
      exact foldl_plain (fun b hb => (hplain b (List.mem_of_mem_tail hb)).2.1) left

/-- The user edits it character by character. -/
theorem charsLeft_line (line : List Key) :
    (charsLeft line).map Subtype.val = result (inChars line) := by
  suffices H : ∀ left : List TextChar, (line.foldl Key.edit left).map Subtype.val =
      (inChars line).foldl Edit.apply (left.map Subtype.val) from H []
  induction line with
  | nil => exact fun _ => rfl
  | cons k line ih =>
    intro left
    rw [List.foldl_cons, ih, inChars_cons, List.foldl_cons]
    refine congrArg (fun left => (inChars line).foldl Edit.apply left) ?_
    cases k with
    | char c => exact List.map_append
    | backspace => exact List.map_dropLast
    | enter => exact (List.append_nil _).symm
    | control params last => exact (List.append_nil _).symm

/-- Every character that the keys after it delete is deleted with all its bytes. -/
def DeletesWhole (line : List Key) : Prop :=
  ∀ c rest, .char c :: rest <:+ line → Erases 1 (inChars rest) → Erases c.1.length (inBytes rest)

/-- What arrives of a control sequence, one byte for each parameter byte, is deleted by the
keys after it. -/
def DeletesStray (line : List Key) : Prop :=
  ∀ params last rest, .control params last :: rest <:+ line →
    Erases params.length (inBytes rest)

/-- What `DeletesWhole` and `DeletesStray` say of one key. -/
def Key.Deleted (rest : List Key) : Key → Prop
  | char c => Erases 1 (inChars rest) → Erases c.1.length (inBytes rest)
  | control params _ => Erases params.length (inBytes rest)
  | _ => True

instance (rest : List Key) : DecidablePred (Key.Deleted rest)
  | .char _ => inferInstanceAs (Decidable (_ → _))
  | .control _ _ => inferInstanceAs (Decidable (Erases _ _))
  | .backspace => isTrue trivial
  | .enter => isTrue trivial

theorem deletes_iff (line : List Key) :
    DeletesWhole line ∧ DeletesStray line ↔ ∀ k rest, k :: rest <:+ line → k.Deleted rest := by
  constructor
  · rintro ⟨hwhole, hstray⟩ k rest hsuff
    cases k with
    | char c => exact hwhole c rest hsuff
    | control params last => exact hstray params last rest hsuff
    | _ => exact trivial
  · intro h
    exact ⟨fun c rest hsuff => h _ rest hsuff, fun params last rest hsuff => h _ rest hsuff⟩

instance (line : List Key) : Decidable (DeletesWhole line ∧ DeletesStray line) :=
  decidable_of_iff _ (deletes_iff line).symm

/-- The lines that come out of the keys. -/
theorem lines_encode (keys : List Key) :
    lines (keys.flatMap Key.encode) =
      (finishedLines keys).map fun line => result (inBytes line) := by
  rw [lines, pieces_encode, ← List.map_dropLast, List.map_map]
  exact List.map_congr_left fun line hline =>
    erase_line fun k hk => (of_mem_finished hline k hk).2

/-- When a line is what was typed. -/
theorem result_eq_charsLeft (h : ∀ k ∈ line, k.isEnter = false) :
    result (inBytes line) = (charsLeft line).flatMap Subtype.val ↔
      DeletesWhole line ∧ DeletesStray line := by
  rw [List.flatMap, charsLeft_line, inBytes, inChars, result_raw_eq_iff, deletes_iff]
  refine forall₂_congr fun k rest => imp_congr_right fun hsuff => ?_
  cases k with
  | char c => exact Iff.rfl
  | backspace => exact Iff.rfl
  | enter => exact absurd (h _ (hsuff.subset List.mem_cons_self)) (by simp [Key.isEnter])
  | control params last =>
    show Erases (params.map Subtype.val ++ [last.1]).tail.length _ ↔ Erases params.length _
    rw [List.length_tail, List.length_append, List.length_map, List.length_singleton,
      Nat.add_sub_cancel]
    exact Iff.rfl

/-- When all lines are. -/
theorem lines_eq_typed_iff (keys : List Key) :
    lines (keys.flatMap Key.encode) = typedLines keys ↔
      ∀ line ∈ finishedLines keys, DeletesWhole line ∧ DeletesStray line := by
  rw [lines_encode, typedLines, List.map_inj_left]
  exact forall₂_congr fun line hline =>
    result_eq_charsLeft fun k hk => (of_mem_finished hline k hk).2

theorem whole_typed {prompt : Bytes} (h : prompt ∈ typedLines keys) : Whole prompt := by
  obtain ⟨line, -, rfl⟩ := List.mem_map.mp h
  refine ⟨(charsLeft line).map Subtype.val, ?_, rfl⟩
  intro c hc
  obtain ⟨c, -, rfl⟩ := List.mem_map.mp hc
  exact c.2

/-- **When Backspace removes whole characters.**  For every sequence of characters,
Backspaces and Enters: whatever the interleaving with polls, the prompts polled are the
encodings of the characters left in the lines, and made of whole characters, if and only
if in every finished line each character that is deleted is deleted with all its bytes. -/
theorem backspace_iff (header footer : Bytes) (headerColor footerColor : eColor)
    (width height : ℕ) {keys : List Key} (hkeys : ∀ k ∈ keys, k.isControl = false) :
    let start : Typing :=
      ⟨DisplayConsole.new header footer headerColor footerColor width height,
        keys.flatMap Key.encode⟩
    (Returns start (typedLines keys) ∧
      ∀ calls, ∀ prompt ∈ polled (trace Typing.step start calls), Whole prompt) ↔
    ∀ line ∈ finishedLines keys, DeletesWhole line := by
  intro start
  -- there is no control sequence to leave anything behind
  have hstray : ∀ line ∈ finishedLines keys, DeletesStray line := by
    intro line hline params last rest hsuff
    have hmem := of_mem_finished hline _ (hsuff.subset List.mem_cons_self)
    exact absurd (hkeys _ hmem.1) (by simp [Key.isControl])
  have hreturns : Returns start (typedLines keys) ↔
      ∀ line ∈ finishedLines keys, DeletesWhole line := by
    rw [returns_iff rfl rfl]
    refine (lines_eq_typed_iff keys).trans (forall₂_congr fun line hline => ?_)
    exact and_iff_left (hstray line hline)
  rw [← hreturns]
  refine ⟨fun h => h.1, fun h => ⟨h, fun calls prompt hprompt => ?_⟩⟩
  exact whole_typed ((h calls).1.subset hprompt)

/-- A three-byte character, and Backspace once for each of its bytes. -/
theorem backspace_iff_thrice :
    let keys : List Key :=
      [.char ⟨[0xED, 0x95, 0x9C], .utf8 (by decide) (by decide) rfl rfl (by decide) (by decide)⟩,
        .backspace, .backspace, .backspace, .enter]
    let start : Typing := ⟨DisplayConsole.new [] [] .Default .Default 80 24,
      keys.flatMap Key.encode⟩
    Returns start (typedLines keys) ∧
      ∀ calls, ∀ prompt ∈ polled (trace Typing.step start calls), Whole prompt := by
  intro keys start
  have hdeletes : ∀ line ∈ finishedLines keys, DeletesWhole line ∧ DeletesStray line := by decide
  exact (backspace_iff [] [] .Default .Default 80 24 (by simp [keys, Key.isControl])).mpr
    fun line hline => (hdeletes line hline).1

/-- A three-byte character and one Backspace: two of its bytes come out. -/
theorem backspace_once :
    let keys : List Key :=
      [.char ⟨[0xED, 0x95, 0x9C], .utf8 (by decide) (by decide) rfl rfl (by decide) (by decide)⟩,
        .backspace, .enter]
    let start : Typing := ⟨DisplayConsole.new [] [] .Default .Default 80 24,
      keys.flatMap Key.encode⟩
    ¬ (Returns start (typedLines keys) ∧
      ∀ calls, ∀ prompt ∈ polled (trace Typing.step start calls), Whole prompt) := by
  intro keys start h
  have hlines : lines [0xED, 0x95, 0x9C, 127, 10] = [[]] := (returns_iff rfl rfl).mp h.1
  exact absurd hlines (by decide)

/-! ### Control sequences -/

theorem finishedLines_filter (keys : List Key) :
    finishedLines (keys.filter fun k => !k.isControl) =
      (finishedLines keys).map fun line => line.filter fun k => !k.isControl := by
  have hkeep : ∀ k : Key, k.isEnter = true → (!k.isControl) = true := by
    intro k hk
    cases k with
    | enter => rfl
    | _ => exact absurd hk (by simp [Key.isEnter])
  rw [finishedLines, finishedLines, splitOnP_filter hkeep, List.map_dropLast]

/-- A control sequence types nothing. -/
theorem charsLeft_filter (line : List Key) :
    charsLeft (line.filter fun k => !k.isControl) = charsLeft line := by
  rw [charsLeft, charsLeft, List.foldl_filter]
  congr 1
  funext left k
  cases k <;> rfl

theorem typedLines_filter (keys : List Key) :
    typedLines (keys.filter fun k => !k.isControl) = typedLines keys := by
  rw [typedLines, typedLines, finishedLines_filter, List.map_map]
  refine List.map_congr_left fun line _ => ?_
  exact congrArg (fun left => List.flatMap Subtype.val left) (charsLeft_filter line)

/-- Bytes are characters if there are only ASCII characters. -/
theorem single_press (hascii : k.isAscii = true) (hno : k.isControl = false) :
    k.press.Single := by
  cases k with
  | char c =>
    have hlen : c.1.length = 1 := of_decide_eq_true hascii
    exact hlen
  | backspace => exact trivial
  | enter => exact rfl
  | control params last => exact absurd hno (by simp [Key.isControl])

/-- Without control sequences the lines of ASCII keys are what was typed. -/
theorem lines_ascii (hascii : ∀ k ∈ keys, k.isAscii = true)
    (hno : ∀ k ∈ keys, k.isControl = false) :
    lines (keys.flatMap Key.encode) = typedLines keys := by
  rw [lines_encode, typedLines]
  refine List.map_congr_left fun line hline => ?_
  have hsingle : ∀ p ∈ line.map Key.press, p.Single := by
    intro p hp
    obtain ⟨k, hk, rfl⟩ := List.mem_map.mp hp
    have hmem := (of_mem_finished hline k hk).1
    exact single_press (hascii k hmem) (hno k hmem)
  rw [List.flatMap, charsLeft_line]
  exact result_raw_of_single hsingle

/-- **When control sequences leave nothing in a prompt.**  For every sequence of ASCII
characters, Backspaces, Enters and control sequences: whatever the interleavings with
polls, the prompts polled are those of the same keys without the control sequences, if
and only if in every finished line what arrives of a control sequence is deleted again,
and so is each character that is meant to be deleted. -/
theorem control_iff (header footer : Bytes) (headerColor footerColor : eColor)
    (width height : ℕ) {keys : List Key} (hkeys : ∀ k ∈ keys, k.isAscii = true) :
    let start : List Key → Typing := fun keys =>
      ⟨DisplayConsole.new header footer headerColor footerColor width height,
        keys.flatMap Key.encode⟩
    let others := keys.filter fun k => !k.isControl
    (∀ calls, (final Typing.step (start others) calls).Done →
      Returns (start keys) (polled (trace Typing.step (start others) calls))) ↔
    ∀ line ∈ finishedLines keys, DeletesWhole line ∧ DeletesStray line := by
  intro start others
  have hothers : lines (start others).stdin = typedLines keys := by
    have htyped : lines (others.flatMap Key.encode) = typedLines others := by
      refine lines_ascii (fun k hk => hkeys k (List.mem_filter.mp hk).1) (fun k hk => ?_)
      simpa using (List.mem_filter.mp hk).2
    exact htyped.trans (typedLines_filter keys)
  have hdone : ∀ calls, (final Typing.step (start others) calls).Done →
      polled (trace Typing.step (start others) calls) = typedLines keys := by
    intro calls hcalls
    exact (polled_of_done rfl rfl hcalls).trans hothers
  have hreturns : Returns (start keys) (typedLines keys) ↔
      ∀ line ∈ finishedLines keys, DeletesWhole line ∧ DeletesStray line := by
    rw [returns_iff rfl rfl]
    exact lines_eq_typed_iff keys
  rw [← hreturns]
  constructor
  · intro h
    obtain ⟨calls, hcalls⟩ := exists_done (start others)
    have hcalls' := h calls hcalls
    rwa [hdone calls hcalls] at hcalls'
  · intro h calls hcalls
    rw [hdone calls hcalls]
    exact h

/-- The Delete key with a Backspace that deletes what arrives of it, and an arrow key. -/
theorem control_iff_arrow :
    let keys : List Key :=
      [.control [⟨51, by decide⟩] ⟨126, by decide⟩, .backspace,
        .char ⟨[97], .ascii (by decide) (by decide)⟩, .control [] ⟨65, by decide⟩, .enter]
    let start : List Key → Typing := fun keys =>
      ⟨DisplayConsole.new [] [] .Default .Default 80 24, keys.flatMap Key.encode⟩
    let others := keys.filter fun k => !k.isControl
    ∀ calls, (final Typing.step (start others) calls).Done →
      Returns (start keys) (polled (trace Typing.step (start others) calls)) := by
  intro keys start others
  have hdeletes : ∀ line ∈ finishedLines keys, DeletesWhole line ∧ DeletesStray line := by decide
  exact (control_iff [] [] .Default .Default 80 24 (by simp [keys, Key.isAscii])).mpr hdeletes

/-- The Delete key, `"\033[3~"`, puts a tilde into the prompt. -/
theorem control_delete :
    let keys : List Key := [.control [⟨51, by decide⟩] ⟨126, by decide⟩, .enter]
    let start : List Key → Typing := fun keys =>
      ⟨DisplayConsole.new [] [] .Default .Default 80 24, keys.flatMap Key.encode⟩
    let others := keys.filter fun k => !k.isControl
    ¬ ∀ calls, (final Typing.step (start others) calls).Done →
      Returns (start keys) (polled (trace Typing.step (start others) calls)) := by
  intro keys start others h
  have hreturns := h [.pushCharPrompt, .pollPromptQueue []] ⟨rfl, rfl⟩
  have hlines : lines [27, 91, 51, 126, 10] = [[]] := (returns_iff rfl rfl).mp hreturns
  exact absurd hlines (by decide)

end Gdf
