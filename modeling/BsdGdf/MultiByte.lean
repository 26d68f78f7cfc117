/-
Multi-byte text in content rows.

The console takes a character to be one byte, or three if the first of them is negative
as a `char`.  Two loops walk a content string that way: `strlenMultiByte` counts until
it meets a zero, and the copying loop of `appendContent` copies as many characters as
it is told to, without looking for an end.  Neither looks at what it skips over.

* `strlenLoop_chars`, `copyLoop_chars` — on a sequence of characters both stay on their
  boundaries;
* `contentRow_chars` — a content row shows the whole string or its first characters and
  three dots, and never more than the width of the console;
* `contentReads_iff` — the loops stay inside the string exactly if its last group of
  three is not cut short.
-/
import BsdGdf.ContentBuffer
import BsdGdf.DisplayConsole

namespace Gdf

/-! ### Characters -/

/-- One byte in 1..127, or three bytes of which the first is negative. -/
inductive IsChar : Bytes → Prop
  | one {a : UInt8} : a ≠ 0 → isNegative a = false → IsChar [a]
  | three {a b c : UInt8} : isNegative a = true → IsChar [a, b, c]

theorem IsChar.pos {c : Bytes} (h : IsChar c) : 0 < c.length := by
  cases h <;> exact Nat.succ_pos _

theorem ne_zero_of_isNegative {a : UInt8} (h : isNegative a = true) : a ≠ 0 := by
  rintro rfl
  exact absurd h (by decide)

/-- The positions at which the characters start, if the first is at `i`. -/
def charStarts : ℕ → List Bytes → List ℕ
  | _, [] => []
  | i, c :: cs => i :: charStarts (i + c.length) cs

section Chars

variable {m pre tail : Bytes} {cs : List Bytes}

theorem length_le_flatten (hcs : ∀ c ∈ cs, IsChar c) : cs.length ≤ cs.flatten.length := by
  induction cs with
  | nil => exact le_rfl
  | cons c cs ih =>
    obtain ⟨hc, hcs⟩ := List.forall_mem_cons.mp hcs
    have hpos := hc.pos
    have hle := ih hcs
    rw [List.flatten_cons, List.length_append, List.length_cons]
    omega

theorem charStarts_lt (hcs : ∀ c ∈ cs, IsChar c) (i : ℕ) :
    ∀ j ∈ charStarts i cs, j < i + cs.flatten.length := by
  induction cs generalizing i with
  | nil =>
    intro j hj
    exact absurd hj (by simp [charStarts])
  | cons c cs ih =>
    obtain ⟨hc, hcs⟩ := List.forall_mem_cons.mp hcs
    have hpos := hc.pos
    intro j hj
    rw [List.flatten_cons, List.length_append]
    rcases List.mem_cons.mp hj with rfl | hj
    · omega
    · have hlt := ih hcs (i + c.length) j hj
      omega

theorem getD_of_eq (pre tail : Bytes) {a : UInt8} {i : ℕ} (h : m = pre ++ a :: tail)
    (hi : i = pre.length) : m.getD i 0 = a := by
  rw [h, hi, List.getD_eq_getElem?_getD, List.getElem?_append_right le_rfl, Nat.sub_self]
  rfl

theorem getD_char {first : Bytes} (hm : m = pre ++ (first :: cs).flatten ++ tail) {j : ℕ}
    (hj : j < first.length) : m.getD (pre.length + j) 0 = first[j] := by
  rw [hm, List.flatten_cons, List.append_assoc, List.append_assoc, List.getD_eq_getElem?_getD,
    List.getElem?_append_right (Nat.le_add_right _ j), Nat.add_sub_cancel_left,
    List.getElem?_append_left hj, List.getElem?_eq_getElem hj]
  rfl

/-- The counting loop passes over a sequence of characters, and goes on after it. -/
theorem strlenLoop_chars (hcs : ∀ c ∈ cs, IsChar c) :
    ∀ (pre : Bytes), m = pre ++ cs.flatten ++ tail → ∀ fuel,
      strlenLoop (fun i => m.getD i 0) (cs.length + fuel) pre.length =
        (cs.length + (strlenLoop (fun i => m.getD i 0) fuel (pre ++ cs.flatten).length).1,
          charStarts pre.length cs ++
            (strlenLoop (fun i => m.getD i 0) fuel (pre ++ cs.flatten).length).2) := by
  induction cs with
  | nil =>
    intro pre _ fuel
    simp only [List.flatten_nil, List.append_nil, List.length_nil, Nat.zero_add, charStarts,
      List.nil_append]
  | cons c cs ih =>
    intro pre hm fuel
    obtain ⟨hc, hcs⟩ := List.forall_mem_cons.mp hcs
    -- the rest of the string, read from behind the first character
    have hm' : m = (pre ++ c) ++ cs.flatten ++ tail := by
      rw [hm, List.flatten_cons, List.append_assoc pre c]
    have hrest := ih hcs (pre ++ c) hm' fuel
    rw [List.append_assoc pre c, ← List.flatten_cons, List.length_append] at hrest
    rw [List.length_cons, Nat.add_right_comm, strlenLoop, charStarts]
    cases hc with
    | @one a ha hneg =>
      have hread : m.getD pre.length 0 = a := getD_char hm (show 0 < 1 by omega)
      simp only [hread, if_neg ha, hneg, Bool.false_eq_true, if_false]
      rw [show pre.length + 1 = pre.length + [a].length from rfl, hrest, List.cons_append]
      simp only [Nat.add_right_comm]
    | @three a b c hneg =>
      have hread : m.getD pre.length 0 = a := getD_char hm (show 0 < 3 by omega)
      simp only [hread, if_neg (ne_zero_of_isNegative hneg), hneg, if_true]
      rw [show pre.length + 3 = pre.length + [a, b, c].length from rfl, hrest, List.cons_append]
      simp only [Nat.add_right_comm]

/-- The copying loop copies as many characters as it is told to, byte by byte. -/
theorem copyLoop_chars (hcs : ∀ c ∈ cs, IsChar c) :
    ∀ {n : ℕ} (pre : Bytes), m = pre ++ cs.flatten ++ tail → n ≤ cs.length →
      copyLoop (fun i => m.getD i 0) n pre.length =
        ((cs.take n).flatten, List.range' pre.length (cs.take n).flatten.length) := by
  induction cs with
  | nil =>
    intro n pre _ hn
    obtain rfl : n = 0 := Nat.le_zero.mp hn
    rfl
  | cons c cs ih =>
    intro n pre hm hn
    obtain ⟨hc, hcs⟩ := List.forall_mem_cons.mp hcs
    rcases n with _ | n
    · rfl
    have hm' : m = (pre ++ c) ++ cs.flatten ++ tail := by
      rw [hm, List.flatten_cons, List.append_assoc pre c]
    have hrest := ih hcs (pre ++ c) hm' (Nat.le_of_succ_le_succ hn)
    rw [List.length_append] at hrest
    rw [copyLoop, List.take_succ_cons, List.flatten_cons, List.length_append]
    cases hc with
    | @one a ha hneg =>
      have hread : m.getD pre.length 0 = a := getD_char hm (show 0 < 1 by omega)
      simp only [hread, hneg, Bool.false_eq_true, if_false]
      rw [show pre.length + 1 = pre.length + [a].length from rfl, hrest]
      simp [List.range'_succ, Nat.add_comm 1]
    | @three a b c hneg =>
      have hread : m.getD pre.length 0 = a := getD_char hm (show 0 < 3 by omega)
      have hread' : m.getD (pre.length + 1) 0 = b := getD_char hm (show 1 < 3 by omega)
      have hread'' : m.getD (pre.length + 2) 0 = c := getD_char hm (show 2 < 3 by omega)
      simp only [hread, hread', hread'', hneg, if_true]
      rw [show pre.length + 3 = pre.length + [a, b, c].length from rfl, hrest]
      simp [List.range'_succ, Nat.add_comm 3]

end Chars

section Strings

variable {beyond : Bytes → Bytes} {s rest : Bytes} {cs : List Bytes}

theorem strlenLoop_zero {c_str : ℕ → UInt8} {i : ℕ} (h : c_str i = 0) (fuel : ℕ) :
    strlenLoop c_str (fuel + 1) i = (0, [i]) := by
  rw [strlenLoop, if_pos h]

theorem mem_strlenLoop (c_str : ℕ → UInt8) (fuel i : ℕ) :
    i ∈ (strlenLoop c_str (fuel + 1) i).2 := by
  rw [strlenLoop]
  split_ifs <;> exact List.mem_cons_self

/-- `strlenMultiByte` passes over the characters a string starts with. -/
theorem strlenMultiByte_append (beyond : Bytes → Bytes) (hcs : ∀ c ∈ cs, IsChar c)
    (hs : s = cs.flatten ++ rest) :
    ∃ fuel, rest.length + 1 ≤ fuel ∧ strlenMultiByte beyond s =
      (cs.length + (strlenLoop (cStr beyond s) (fuel + 1) cs.flatten.length).1,
        charStarts 0 cs ++ (strlenLoop (cStr beyond s) (fuel + 1) cs.flatten.length).2) := by
  have hle := length_le_flatten hcs
  have hlen : s.length = cs.flatten.length + rest.length := by rw [hs, List.length_append]
  have hmem : s ++ 0 :: beyond s = [] ++ cs.flatten ++ (rest ++ 0 :: beyond s) := by
    rw [List.nil_append, ← List.append_assoc, ← hs]
  refine ⟨s.length + (beyond s).length + 1 - cs.length, by omega, ?_⟩
  have hfuel : s.length + (beyond s).length + 2 =
      cs.length + (s.length + (beyond s).length + 1 - cs.length + 1) := by
    omega
  rw [strlenMultiByte, hfuel]
  exact strlenLoop_chars hcs [] hmem _

/-- `strlenMultiByte` on characters up to a zero: how many they are, and where it
reads. -/
theorem strlenMultiByte_chars (beyond : Bytes → Bytes) (hcs : ∀ c ∈ cs, IsChar c)
    (hs : s = cs.flatten ++ rest) (hrest : rest = [] ∨ ∃ r, rest = 0 :: r) :
    strlenMultiByte beyond s = (cs.length, charStarts 0 cs ++ [cs.flatten.length]) := by
  obtain ⟨fuel, -, heq⟩ := strlenMultiByte_append beyond hcs hs
  have hzero : cStr beyond s cs.flatten.length = 0 := by
    rcases hrest with rfl | ⟨r, rfl⟩
    · refine getD_of_eq cs.flatten (beyond s) ?_ rfl
      rw [hs, List.append_nil]
    · refine getD_of_eq cs.flatten (r ++ 0 :: beyond s) ?_ rfl
      rw [← List.cons_append, ← List.append_assoc, ← hs]
  rw [heq, strlenLoop_zero hzero, Nat.add_zero]

/-- The scan of the string ends at its terminator, or at a zero before it, and not
inside a group of three. -/
def aligned : Bytes → Bool
  | [] => true
  | b :: rest =>
    if b = 0 then true
    else if isNegative b then
      match rest with
      | _ :: _ :: rest => aligned rest
      | _ => false
    else aligned rest

/-- The string starts with characters, and the scan goes no further: at the end, at a
zero, or at a group that is cut short. -/
def Scans (s : Bytes) : Prop :=
  ∃ (cs : List Bytes) (rest : Bytes), (∀ c ∈ cs, IsChar c) ∧ s = cs.flatten ++ rest ∧
    ((aligned s = true ∧ (rest = [] ∨ ∃ r, rest = 0 :: r)) ∨
      (aligned s = false ∧ ∃ a r, rest = a :: r ∧ isNegative a = true ∧ r.length ≤ 1))

theorem Scans.cons {c s' : Bytes} (h : Scans s) (hc : IsChar c) (hs : s' = c ++ s)
    (halign : aligned s' = aligned s) : Scans s' := by
  obtain ⟨cs, rest, hcs, rfl, hend⟩ := h
  refine ⟨c :: cs, rest, List.forall_mem_cons.mpr ⟨hc, hcs⟩, ?_, ?_⟩
  · rw [hs, List.flatten_cons, List.append_assoc]
  · rwa [halign]

theorem scans (s : Bytes) : Scans s := by
  have hnil : ∀ c ∈ ([] : List Bytes), IsChar c := fun c hc => absurd hc List.not_mem_nil
  induction s using aligned.induct with
  | case1 => exact ⟨[], [], hnil, rfl, .inl ⟨rfl, .inl rfl⟩⟩
  | case2 rest =>
    refine ⟨[], 0 :: rest, hnil, rfl, .inl ⟨?_, .inr ⟨rest, rfl⟩⟩⟩
    rcases rest with _ | ⟨x, _ | ⟨y, rest⟩⟩ <;> simp [aligned]
  | case3 b h0 hneg x y rest ih =>
    exact ih.cons (.three (b := x) (c := y) hneg) rfl (by simp [aligned, h0, hneg])
  | case4 b rest h0 hneg hshort =>
    refine ⟨[], b :: rest, hnil, rfl, .inr ⟨?_, b, rest, rfl, hneg, ?_⟩⟩
    · rcases rest with _ | ⟨x, _ | ⟨y, rest⟩⟩
      · simp [aligned, h0, hneg]
      · simp [aligned, h0, hneg]
      · exact (hshort x y rest rfl).elim
    · rcases rest with _ | ⟨x, _ | ⟨y, rest⟩⟩
      · exact Nat.zero_le 1
      · exact le_rfl
      · exact (hshort x y rest rfl).elim
  | case5 b rest h0 hneg ih =>
    have hpos : isNegative b = false := by simpa using hneg
    refine ih.cons (.one h0 hpos) rfl ?_
    rcases rest with _ | ⟨x, _ | ⟨y, rest⟩⟩ <;> simp [aligned, h0, hpos]

/-! ### Content rows -/

/-- The indices at which a round of the loop of `appendContent` reads a content string:
in `strlenMultiByte`, and in the copying loop if the row is cut. -/
def contentReads (beyond : Bytes → Bytes) (con : DisplayConsole) (content : Content) : List ℕ :=
  (strlenMultiByte beyond content.String).2 ++
    if (strlenMultiByte beyond content.String).1 + con.timestampWidth > con.mConsoleWidth then
      let leftWidth := subUInt64 con.mConsoleWidth con.timestampWidth
      (copyLoop (cStr beyond content.String) (subUInt64 leftWidth 3) 0).2
    else []

variable {con : DisplayConsole} {content : Content}

theorem timestampWidth_le (con : DisplayConsole) : con.timestampWidth ≤ 10 := by
  rw [DisplayConsole.timestampWidth]
  split <;> omega

theorem leftWidth_eq (hwidth : 18 ≤ con.mConsoleWidth) :
    subUInt64 (subUInt64 con.mConsoleWidth con.timestampWidth) 3 =
      con.mConsoleWidth - con.timestampWidth - 3 := by
  have hle := timestampWidth_le con
  rw [subUInt64_of_le (show con.timestampWidth ≤ con.mConsoleWidth by omega),
    subUInt64_of_le (show 3 ≤ con.mConsoleWidth - con.timestampWidth by omega)]

theorem copyLoop_string (beyond : Bytes → Bytes) {n : ℕ} (hcs : ∀ c ∈ cs, IsChar c)
    (hs : s = cs.flatten ++ rest) (hn : n ≤ cs.length) :
    copyLoop (cStr beyond s) n 0 =
      ((cs.take n).flatten, List.range' 0 (cs.take n).flatten.length) := by
  have hmem : s ++ 0 :: beyond s = [] ++ cs.flatten ++ (rest ++ 0 :: beyond s) := by
    rw [List.nil_append, ← List.append_assoc, ← hs]
  exact copyLoop_chars hcs [] hmem hn

theorem length_take_flatten_le (cs : List Bytes) (n : ℕ) :
    (cs.take n).flatten.length ≤ cs.flatten.length := by
  rw [← congrArg List.flatten (List.take_append_drop n cs), List.flatten_append,
    List.length_append]
  omega

/-- The copying loop reads at a character that is there. -/
theorem copyLoop_lt (beyond : Bytes → Bytes) {n : ℕ} (hcs : ∀ c ∈ cs, IsChar c)
    (hs : s = cs.flatten ++ rest) (hn : n ≤ cs.length) :
    ∀ i ∈ (copyLoop (cStr beyond s) n 0).2, i < cs.flatten.length := by
  rw [copyLoop_string beyond hcs hs hn]
  intro i hi
  have hle := length_take_flatten_le cs n
  rw [List.mem_range'_1] at hi
  omega

/-- On a string whose scan ends well, everything that is read lies in the string or is
its terminator. -/
theorem contentReads_le (beyond : Bytes → Bytes) (hwidth : 18 ≤ con.mConsoleWidth)
    (hcs : ∀ c ∈ cs, IsChar c) (hs : content.String = cs.flatten ++ rest)
    (hrest : rest = [] ∨ ∃ r, rest = 0 :: r) :
    ∀ i ∈ contentReads beyond con content, i ≤ content.String.length := by
  have hlen : content.String.length = cs.flatten.length + rest.length := by
    rw [hs, List.length_append]
  have hcount := strlenMultiByte_chars beyond hcs hs hrest
  intro i hi
  rw [contentReads, List.mem_append, hcount] at hi
  rcases hi with hi | hi
  · rcases List.mem_append.mp hi with hi | hi
    · have hlt := charStarts_lt hcs 0 i hi
      omega
    · have heq := List.mem_singleton.mp hi
      omega
  · split at hi
    case isFalse => exact absurd hi List.not_mem_nil
    case isTrue hcut =>
      -- there are more characters than are copied
      have hn : con.mConsoleWidth - con.timestampWidth - 3 ≤ cs.length := by
        have hlt : cs.length + con.timestampWidth > con.mConsoleWidth := hcut
        omega
      have hi' : i ∈ (copyLoop (cStr beyond content.String)
          (subUInt64 (subUInt64 con.mConsoleWidth con.timestampWidth) 3) 0).2 := hi
      rw [leftWidth_eq hwidth] at hi'
      have hlt := copyLoop_lt beyond hcs hs hn i hi'
      omega

/-- **When rendering stays inside a content string.**  For every content and every
console at least 18 wide, with or without timestamps and whatever follows the string
in memory: `strlenMultiByte` and the copying loop read at 0 to the size of the string
exactly if the scan of the string does not end inside a group of three. -/
theorem contentReads_iff (beyond : Bytes → Bytes) (content : Content)
    (hwidth : 18 ≤ con.mConsoleWidth) :
    (∀ i ∈ contentReads beyond con content, i ≤ content.String.length) ↔
      aligned content.String = true := by
  obtain ⟨cs, rest, hcs, hs, ⟨halign, hrest⟩ | ⟨halign, a, r, rfl, hneg, hr⟩⟩ :=
    scans content.String
  · exact ⟨fun _ => halign, fun _ => contentReads_le beyond hwidth hcs hs hrest⟩
  · refine ⟨fun h => ?_, fun h => absurd (halign.symm.trans h) (by simp)⟩
    -- from the last group the loop jumps over the terminator, and reads there
    obtain ⟨fuel, hfuel, heq⟩ := strlenMultiByte_append beyond hcs hs
    obtain ⟨fuel, rfl⟩ : ∃ fuel', fuel = fuel' + 1 := ⟨fuel - 1, by omega⟩
    have hread : cStr beyond content.String cs.flatten.length = a := by
      refine getD_of_eq cs.flatten (r ++ 0 :: beyond content.String) ?_ rfl
      rw [← List.cons_append, ← List.append_assoc, ← hs]
    have hjump : cs.flatten.length + 3 ∈
        (strlenLoop (cStr beyond content.String) (fuel + 1 + 1) cs.flatten.length).2 := by
      rw [strlenLoop, hread, if_neg (ne_zero_of_isNegative hneg), if_pos hneg]
      exact List.mem_cons_of_mem _ (mem_strlenLoop _ fuel _)
    have hmem : cs.flatten.length + 3 ∈ contentReads beyond con content := by
      rw [contentReads, heq]
      exact List.mem_append_left _ (List.mem_append_right _ hjump)
    have hle := h _ hmem
    rw [hs, List.length_append, List.length_cons] at hle
    omega

/-- Eight one-byte characters and a three-byte one, which are too wide for a narrow console:
five are copied. -/
theorem contentReads_iff_narrow :
    let content : Content :=
      ⟨[], [97, 98, 0xE2, 0x82, 0xAC, 99, 100, 101, 102, 103, 104], .Default⟩
    (∀ i ∈ contentReads (fun _ => []) (.new [] [] .Default .Default 18 24) content,
        i ≤ content.String.length) ↔
      aligned content.String = true :=
  contentReads_iff (fun _ => []) _ (show 18 ≤ 18 from le_rfl)

/-- A two-byte character at the end: the loop reads behind the terminator. -/
theorem contentReads_two_byte :
    ¬ ∀ i ∈ contentReads (fun _ => []) (.new [] [] .Default .Default 80 24)
      ⟨[], [0xC3, 0xA9], .Default⟩, i ≤ 2 := by
  decide

/-- What `localtime()` promises of the fields that are shown. -/
def Tm.Valid (t : Tm) : Prop :=
  (0 ≤ t.tm_hour ∧ t.tm_hour ≤ 23) ∧ 0 ≤ t.tm_min ∧ t.tm_min ≤ 59

instance : DecidablePred Tm.Valid := fun _ => inferInstanceAs (Decidable (_ ∧ _))

theorem length_twoDigits {n : ℤ} (h0 : 0 ≤ n) (h : n ≤ 59) :
    (DisplayBuffer.twoDigits n).length = 2 := by
  have hall : ∀ m < 60, (DisplayBuffer.twoDigits (m : ℕ)).length = 2 := by decide
  obtain ⟨m, rfl⟩ := Int.eq_ofNat_of_zero_le h0
  exact hall m (by omega)

theorem length_getCurrentTimeString {t : Tm} (h : t.Valid) :
    (DisplayBuffer.getCurrentTimeString t).length = 5 := by
  have hle : t.tm_hour ≤ 59 := by
    have := h.1.2
    omega
  have hhour := length_twoDigits h.1.1 hle
  have hmin := length_twoDigits h.2.1 h.2.2
  rw [DisplayBuffer.getCurrentTimeString, List.length_append, List.length_append, hhour, hmin]
  rfl

/-- The prefix of a content row: each colour code with the text it is for. -/
def stamp (con : DisplayConsole) (content : Content) : List (Bytes × Bytes) :=
  if con.bIsTimestampEnabled then
    [([], content.TimeStamp ++ chars [' ']), (mANSIColors .BrightBlue, chars ['-']),
      (mANSIColors .Default, chars ['!']), (mANSIColors .BrightBlue, chars ['-']),
      (mANSIColors .Default, chars [' '])]
  else []

/-- The text of the prefix takes the columns that are reserved for it. -/
theorem length_stamp {t : Tm} (h : t.Valid) (color : eColor) :
    ((stamp con (.pushed s color t)).flatMap Prod.snd).length = con.timestampWidth := by
  have hlen := length_getCurrentTimeString h
  rw [stamp, DisplayConsole.timestampWidth]
  cases con.bIsTimestampEnabled with
  | false => rfl
  | true =>
    show (DisplayBuffer.getCurrentTimeString t ++ chars [' '] ++ _).length = 10
    rw [List.length_append, List.length_append, hlen]
    rfl

/-- A content row, with the two subtractions carried out. -/
theorem contentRow_eq (beyond : Bytes → Bytes) (hwidth : 18 ≤ con.mConsoleWidth) :
    con.contentRow beyond content =
      (stamp con content).flatMap (fun span => span.1 ++ span.2) ++ mANSIColors content.Color ++
        (if (strlenMultiByte beyond content.String).1 + con.timestampWidth >
            con.mConsoleWidth then
          (copyLoop (cStr beyond content.String)
            (con.mConsoleWidth - con.timestampWidth - 3) 0).1 ++ chars ['.', '.', '.']
        else content.String) ++ chars ['\n'] ++ mANSIColors .Default := by
  have hstamp : (stamp con content).flatMap (fun span => span.1 ++ span.2) =
      if con.bIsTimestampEnabled then
        content.TimeStamp ++ chars [' '] ++ mANSIColors .BrightBlue ++ chars ['-']
          ++ mANSIColors .Default ++ chars ['!'] ++ mANSIColors .BrightBlue ++ chars ['-']
          ++ mANSIColors .Default ++ chars [' ']
      else [] := by
    rw [stamp]
    cases con.bIsTimestampEnabled <;> simp
  rw [hstamp]
  simp only [DisplayConsole.contentRow, leftWidth_eq hwidth]
  by_cases hcut : (strlenMultiByte beyond content.String).1 + con.timestampWidth >
      con.mConsoleWidth
  · rw [if_pos hcut, if_pos hcut]
    simp only [List.append_assoc]
    rfl
  · rw [if_neg hcut, if_neg hcut]
    rfl

/-- The characters of a content string that a row shows in `avail` columns. -/
def shown (avail : ℕ) (cs : List Bytes) : List Bytes :=
  if cs.length ≤ avail then cs
  else cs.take (avail - 3) ++ [chars ['.'], chars ['.'], chars ['.']]

/-- **Content rows are measured and cut on character boundaries.**  For every content
that is a sequence of characters, every console at least 18 wide, and the timestamp on
or off: `strlenMultiByte` counts the characters and stops at the terminator; the row
is the prefix and the whole string, or its first `avail - 3` characters and three dots;
what is read lies in the string, the copied bytes before its terminator; and what is
seen is never more than the width. -/
theorem contentRow_chars (beyond : Bytes → Bytes) (hwidth : 18 ≤ con.mConsoleWidth)
    (hcs : ∀ c ∈ cs, IsChar c) (color : eColor) {t : Tm} (ht : t.Valid) :
    let content := Content.pushed cs.flatten color t
    let avail := con.mConsoleWidth - con.timestampWidth
    strlenMultiByte beyond content.String =
        (cs.length, charStarts 0 cs ++ [content.String.length]) ∧
      con.contentRow beyond content =
        (stamp con content).flatMap (fun span => span.1 ++ span.2) ++ mANSIColors color ++
          (shown avail cs).flatten ++ chars ['\n'] ++ mANSIColors .Default ∧
      (∀ i ∈ contentReads beyond con content, i ≤ content.String.length) ∧
      (avail < cs.length → ∀ i ∈ (copyLoop (cStr beyond content.String) (avail - 3) 0).2,
        i < content.String.length) ∧
      ((stamp con content).flatMap Prod.snd).length + (shown avail cs).length ≤
        con.mConsoleWidth := by
  intro content avail
  have hle := timestampWidth_le con
  have hs : content.String = cs.flatten ++ [] := (List.append_nil _).symm
  have hcount := strlenMultiByte_chars beyond hcs hs (.inl rfl)
  refine ⟨hcount, ?_, contentReads_le beyond hwidth hcs hs (.inl rfl), ?_, ?_⟩
  · rw [contentRow_eq beyond hwidth, hcount, shown]
    by_cases hcut : cs.length ≤ avail
    · have hfits : ¬ cs.length + con.timestampWidth > con.mConsoleWidth := by omega
      rw [if_pos hcut, if_neg hfits]
      rfl
    · have hmore : cs.length + con.timestampWidth > con.mConsoleWidth := by omega
      have hcopy := copyLoop_string beyond hcs hs (show avail - 3 ≤ cs.length by omega)
      rw [if_neg hcut, if_pos hmore, hcopy, List.flatten_append]
      rfl
  · intro hcut
    exact copyLoop_lt beyond hcs hs (by omega)
  · rw [length_stamp ht, shown]
    split
    · omega
    · rw [List.length_append, List.length_take]
      show _ + (_ + 3) ≤ _
      omega

/-- Nine characters, one of three bytes, next to a timestamp: five and three dots. -/
theorem contentRow_chars_narrow :
    let con := DisplayConsole.new [] [] .Default .Default 18 24
    let cs : List Bytes := [[0xE2, 0x82, 0xAC], [97], [98], [99], [100], [101], [102], [103], [104]]
    let content := Content.pushed cs.flatten .Default ⟨9, 0⟩
    let avail := con.mConsoleWidth - con.timestampWidth
    strlenMultiByte (fun _ => []) content.String =
        (cs.length, charStarts 0 cs ++ [content.String.length]) ∧
      con.contentRow (fun _ => []) content =
        (stamp con content).flatMap (fun span => span.1 ++ span.2) ++ mANSIColors .Default ++
          (shown avail cs).flatten ++ chars ['\n'] ++ mANSIColors .Default ∧
      (∀ i ∈ contentReads (fun _ => []) con content, i ≤ content.String.length) ∧
      (avail < cs.length → ∀ i ∈ (copyLoop (cStr (fun _ => []) content.String) (avail - 3) 0).2,
        i < content.String.length) ∧
      ((stamp con content).flatMap Prod.snd).length + (shown avail cs).length ≤
        con.mConsoleWidth := by
  refine contentRow_chars (fun _ => []) (show 18 ≤ 18 from le_rfl) ?_ .Default (by decide)
  have hone : ∀ {a : UInt8}, a ≠ 0 ∧ isNegative a = false → IsChar [a] := fun h => .one h.1 h.2
  simp only [List.forall_mem_cons]
  exact ⟨.three rfl, hone (by decide), hone (by decide), hone (by decide), hone (by decide),
    hone (by decide), hone (by decide), hone (by decide), hone (by decide),
    fun _ h => absurd h List.not_mem_nil⟩

end Strings

end Gdf
