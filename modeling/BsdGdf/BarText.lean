/-
Multi-byte text in the header, the footer and the prompt.

A content row is cut between characters and measured in characters.  The other three
row builders count bytes: a header or a footer is padded and cut to the width in bytes,
and a prompt is cut in front to the bytes that fit.

`rowsWhole_iff` says exactly for which texts that makes no difference: no byte of a
longer character in the part of the header or footer that is shown, and a prompt that
is cut where a character starts.
-/
import BsdGdf.Layout

namespace Gdf

/-! ### Text -/

/-- A byte inside a multi-byte character of UTF-8. -/
def isTail (b : UInt8) : Bool := 0x80 ≤ b && b ≤ 0xBF

/-- A printable ASCII character, or a three-byte character of UTF-8: neither an overlong
form nor a surrogate. -/
inductive IsTextChar : Bytes → Prop
  | ascii {a : UInt8} : 0x20 ≤ a → a ≤ 0x7E → IsTextChar [a]
  | utf8 {a b c : UInt8} : 0xE0 ≤ a → a ≤ 0xEF → isTail b = true → isTail c = true →
    (a = 0xE0 → 0xA0 ≤ b) → (a = 0xED → b ≤ 0x9F) → IsTextChar [a, b, c]

/-- The text consists of whole characters. -/
def Whole (text : Bytes) : Prop := ∃ cs : List Bytes, (∀ c ∈ cs, IsTextChar c) ∧ text = cs.flatten

variable {beyond : Bytes → Bytes} {con : DisplayConsole} {text : Bytes} {cs : List Bytes}

theorem isNegative_iff {b : UInt8} : isNegative b = true ↔ 0x80 ≤ b := decide_eq_true_iff

theorem IsTextChar.isChar {c : Bytes} (h : IsTextChar c) : IsChar c := by
  cases h with
  | ascii hge hle =>
    refine .one ?_ ?_
    · rintro rfl
      exact absurd hge (by decide)
    · rw [← Bool.not_eq_true, isNegative_iff]
      intro hneg
      exact absurd (UInt8.le_trans hneg hle) (by decide)
  | utf8 hge => exact .three (isNegative_iff.mpr (UInt8.le_trans (by decide) hge))

theorem strlenMultiByte_text (hcs : ∀ c ∈ cs, IsTextChar c) :
    (strlenMultiByte beyond cs.flatten).1 = cs.length := by
  rw [strlenMultiByte_chars beyond (fun c hc => (hcs c hc).isChar) (List.append_nil _).symm
    (.inl rfl)]

theorem whole_nil : Whole [] := ⟨[], fun _ hc => absurd hc List.not_mem_nil, rfl⟩

theorem printable_chars (h : ∀ b ∈ text, 0x20 ≤ b ∧ b ≤ 0x7E) :
    ∃ cs : List Bytes, (∀ c ∈ cs, IsTextChar c) ∧ text = cs.flatten ∧ cs.length = text.length := by
  refine ⟨text.map fun b => [b], ?_, ?_, List.length_map _⟩
  · intro c hc
    obtain ⟨b, hb, rfl⟩ := List.mem_map.mp hc
    exact .ascii (h b hb).1 (h b hb).2
  · induction text with
    | nil => rfl
    | cons b text ih =>
      obtain ⟨-, hrest⟩ := List.forall_mem_cons.mp h
      rw [List.map_cons, List.flatten_cons, ← ih hrest]
      rfl

theorem printable_of_mem {b : UInt8} (hcs : ∀ c ∈ cs, IsTextChar c) (hb : b ∈ cs.flatten)
    (hlt : b < 0x80) : 0x20 ≤ b ∧ b ≤ 0x7E := by
  obtain ⟨c, hc, hbc⟩ := List.mem_flatten.mp hb
  have htail : ∀ {x : UInt8}, isTail x = true → 0x80 ≤ x := fun hx =>
    of_decide_eq_true (Bool.and_eq_true_iff.mp hx).1
  cases hcs c hc with
  | ascii hge hle =>
    rw [List.mem_singleton.mp hbc]
    exact ⟨hge, hle⟩
  | @utf8 x y z hge _ hy hz =>
    -- none of the three bytes is ASCII
    have hhigh : 0x80 ≤ b := by
      rcases List.mem_cons.mp hbc with rfl | hbc
      · exact UInt8.le_trans (by decide) hge
      rcases List.mem_cons.mp hbc with rfl | hbc
      · exact htail hy
      · rw [List.mem_singleton.mp hbc]
        exact htail hz
    exact absurd hlt (UInt8.not_lt.mpr hhigh)

/-- A text with as many characters as bytes is ASCII. -/
theorem ascii_of_length_eq (hcs : ∀ c ∈ cs, IsTextChar c) (h : cs.length = cs.flatten.length) :
    ∀ b ∈ cs.flatten, b < 0x80 := by
  induction cs with
  | nil => exact fun b hb => absurd hb List.not_mem_nil
  | cons c cs ih =>
    obtain ⟨hc, hrest⟩ := List.forall_mem_cons.mp hcs
    have hle := length_le_flatten fun c hc => (hrest c hc).isChar
    rw [List.flatten_cons, List.length_append, List.length_cons] at h
    cases hc with
    | utf8 =>
      exfalso
      have h3 : cs.length + 1 = 3 + cs.flatten.length := h
      omega
    | @ascii a hge hlt =>
      have h1 : cs.length + 1 = 1 + cs.flatten.length := h
      intro b hb
      rw [List.flatten_cons] at hb
      rcases List.mem_append.mp hb with hb | hb
      · rw [List.mem_singleton.mp hb]
        exact UInt8.lt_of_le_of_lt hlt (by decide)
      · exact ih hrest (by omega) b hb

/-! ### The header and the footer -/

theorem mem_rowText {width : ℕ} (hwidth : 1 ≤ width) (b : UInt8) :
    b ∈ rowText width text → b = 32 ∨ b ∈ text.take (width - 1) := by
  intro hb
  by_cases hfits : text.length + 1 ≤ width
  · rw [rowText_of_le hfits] at hb
    rw [List.take_of_length_le (by omega)]
    rcases List.mem_append.mp hb with hb | hb
    · rcases List.mem_append.mp hb with hb | hb
      · exact .inl (List.mem_singleton.mp hb)
      · exact .inr hb
    · obtain ⟨c, hc, rfl⟩ := List.mem_map.mp hb
      rw [List.eq_of_mem_replicate hc]
      exact .inl rfl
  · rw [rowText_of_lt (by omega) hwidth] at hb
    rcases List.mem_append.mp hb with hb | hb
    · exact .inl (List.mem_singleton.mp hb)
    · exact .inr hb

theorem mem_rowText_of_take {width : ℕ} (hwidth : 1 ≤ width) {b : UInt8}
    (hb : b ∈ text.take (width - 1)) : b ∈ rowText width text := by
  by_cases hfits : text.length + 1 ≤ width
  · rw [rowText_of_le hfits]
    exact List.mem_append_left _ (List.mem_append_right _ (List.mem_of_mem_take hb))
  · rw [rowText_of_lt (by omega) hwidth]
    exact List.mem_append_right _ hb

/-- A header or footer row holds whole characters, as many as the console is wide,
exactly if the bytes of the text that are shown are ASCII. -/
theorem rowText_whole_iff (beyond : Bytes → Bytes) {width : ℕ} (hwidth : 1 ≤ width)
    (h : Whole text) :
    (Whole (rowText width text) ∧ (strlenMultiByte beyond (rowText width text)).1 = width) ↔
      ∀ b ∈ text.take (width - 1), b < 0x80 := by
  constructor
  · rintro ⟨⟨cs, hcs, heq⟩, hcount⟩ b hb
    have hlen := length_rowText width text
    rw [heq, strlenMultiByte_text hcs] at hcount
    rw [heq] at hlen
    refine ascii_of_length_eq hcs (hcount.trans hlen.symm) b ?_
    rw [← heq]
    exact mem_rowText_of_take hwidth hb
  · intro hascii
    obtain ⟨cs, hcs, rfl⟩ := h
    have hprintable : ∀ b ∈ rowText width cs.flatten, 0x20 ≤ b ∧ b ≤ 0x7E := by
      intro b hb
      rcases mem_rowText hwidth b hb with rfl | hb
      · decide
      · exact printable_of_mem hcs (List.mem_of_mem_take hb) (hascii b hb)
    obtain ⟨ds, hds, heq, hlen⟩ := printable_chars hprintable
    refine ⟨⟨ds, hds, heq⟩, ?_⟩
    rw [heq, strlenMultiByte_text hds, hlen, length_rowText]

/-! ### The prompt -/

/-- A text that is cut in front of a byte that starts a character. -/
theorem whole_drop (hcs : ∀ c ∈ cs, IsTextChar c) :
    ∀ {i : ℕ}, i < cs.flatten.length → isTail (cs.flatten.getD i 0) = false →
      Whole (cs.flatten.drop i) := by
  induction cs with
  | nil =>
    intro i hi
    exact absurd hi (Nat.not_lt_zero i)
  | cons c cs ih =>
    intro i hi htail
    obtain ⟨hc, hrest⟩ := List.forall_mem_cons.mp hcs
    rcases i with _ | i
    · exact ⟨c :: cs, hcs, rfl⟩
    cases hc with
    | ascii => exact ih hrest (Nat.lt_of_succ_lt_succ hi) htail
    | @utf8 x y z _ _ hy hz =>
      rcases i with _ | _ | i
      · exact absurd (hy.symm.trans htail) (by simp)
      · exact absurd (hz.symm.trans htail) (by simp)
      · exact ih hrest (by simpa using hi) htail

theorem isTail_head {b : UInt8} {rest : Bytes} (h : Whole (b :: rest)) : isTail b = false := by
  obtain ⟨cs, hcs, heq⟩ := h
  rcases cs with _ | ⟨c, cs⟩
  · exact absurd heq (by simp)
  obtain ⟨hc, -⟩ := List.forall_mem_cons.mp hcs
  have hhigh : ∀ {x y : UInt8}, y ≤ x → isTail x = true → y ≤ 0xBF := fun hxy hx =>
    UInt8.le_trans hxy (of_decide_eq_true (Bool.and_eq_true_iff.mp hx).2)
  rw [List.flatten_cons] at heq
  cases hc with
  | @ascii a hge hle =>
    obtain ⟨rfl, -⟩ := List.cons_eq_cons.mp heq
    have hlow : ¬ 0x80 ≤ b := fun hge => absurd (UInt8.le_trans hge hle) (by decide)
    simp [isTail, hlow]
  | @utf8 x y z hge =>
    obtain ⟨rfl, -⟩ := List.cons_eq_cons.mp heq
    rw [← Bool.not_eq_true]
    intro htail
    exact absurd (hhigh hge htail) (by decide)

/-- The end of a prompt is whole exactly if all of it is shown, or it is cut in front of
a byte that starts a character. -/
theorem rtake_whole_iff {n : ℕ} (hn : 0 < n) (h : Whole text) :
    Whole (text.rtake n) ↔ text.length ≤ n ∨ isTail (text.getD (text.length - n) 0) = false := by
  by_cases hfits : text.length ≤ n
  · rw [rtake_of_length_le hfits]
    exact ⟨fun _ => .inl hfits, fun _ => h⟩
  have hi : text.length - n < text.length := by omega
  rw [List.rtake.eq_1]
  constructor
  · intro hwhole
    rw [List.drop_eq_getElem_cons hi] at hwhole
    have hhead := isTail_head hwhole
    right
    rwa [List.getD_eq_getElem?_getD, List.getElem?_eq_getElem hi]
  · rintro (hle | htail)
    · exact absurd hle hfits
    · obtain ⟨cs, hcs, rfl⟩ := h
      exact whole_drop hcs hi htail

/-! ### The three rows -/

/-- What `appendHeader`, `appendFooter` and `appendPrompt` append holds whole characters,
and the header and the footer as many as the console is wide. -/
structure RowsWhole (beyond : Bytes → Bytes) (con : DisplayConsole) : Prop where
  header : ∀ screenBuffer, ∃ text, con.appendHeader screenBuffer =
      screenBuffer ++ (con.mHeaderColor ++ text ++ mANSIColors .Default ++ chars ['\n']) ∧
    Whole text ∧ (strlenMultiByte beyond text).1 = con.mConsoleWidth
  footer : ∀ screenBuffer, ∃ text, con.appendFooter screenBuffer =
      screenBuffer ++ DisplayConsole.cursorToLine (toInt (subUInt64 con.mConsoleHeight 1)) ++
        (con.mFooterColor ++ text ++ mANSIColors .Default ++ chars ['\n']) ∧
    Whole text ∧ (strlenMultiByte beyond text).1 = con.mConsoleWidth
  prompt : ∀ screenBuffer, ∃ text, con.appendPrompt screenBuffer =
      screenBuffer ++ DisplayConsole.cursorToLine (toInt con.mConsoleHeight) ++
        DisplayConsole.promptMarker ++ text ∧
    Whole text

theorem row_inj {a b c c' d : Bytes} (h : a ++ (b ++ c ++ d) = a ++ (b ++ c' ++ d)) : c = c' := by
  have hrow := List.append_cancel_left h
  rw [List.append_assoc, List.append_assoc] at hrow
  exact List.append_cancel_right (List.append_cancel_left hrow)

theorem bar_inj (hwidth : 1 ≤ con.mConsoleWidth) {screenBuffer color text row : Bytes}
    (h : screenBuffer ++ con.bar color text =
      screenBuffer ++ (color ++ row ++ mANSIColors .Default ++ chars ['\n'])) :
    row = rowText con.mConsoleWidth text := by
  rw [bar_eq _ (barObligations_met hwidth _), List.append_assoc (color ++ rowText _ _),
    List.append_assoc (color ++ row)] at h
  exact (row_inj h).symm

/-- **When the header, footer and prompt rows treat multi-byte text as content rows do.**
For every header, footer and prompt of whole characters, and every console at least 18
wide, the three rows hold whole characters and the first two exactly as many as the
console is wide, if and only if the first `width - 1` bytes of the header and of the
footer are ASCII, and the prompt fits or is cut in front of a byte that starts a
character. -/
theorem rowsWhole_iff (hwidth : 18 ≤ con.mConsoleWidth) (hheader : Whole con.mDisplay.mHeader)
    (hfooter : Whole con.mDisplay.mFooter) (hprompt : Whole con.mPromptBuffer) :
    RowsWhole beyond con ↔
      (∀ b ∈ con.mDisplay.mHeader.take (con.mConsoleWidth - 1), b < 0x80) ∧
      (∀ b ∈ con.mDisplay.mFooter.take (con.mConsoleWidth - 1), b < 0x80) ∧
      (con.mPromptBuffer.length + 11 ≤ con.mConsoleWidth ∨
        isTail (con.mPromptBuffer.getD
          (con.mPromptBuffer.length - (con.mConsoleWidth - 11)) 0) = false) := by
  have hpos : 1 ≤ con.mConsoleWidth := by omega
  have hprompts := promptObligations_met (show 11 ≤ con.mConsoleWidth by omega)
  have hfits : con.mPromptBuffer.length + 11 ≤ con.mConsoleWidth ↔
      con.mPromptBuffer.length ≤ con.mConsoleWidth - 11 := by omega
  rw [← rowText_whole_iff beyond hpos hheader, ← rowText_whole_iff beyond hpos hfooter, hfits,
    ← rtake_whole_iff (show 0 < con.mConsoleWidth - 11 by omega) hprompt]
  constructor
  · intro h
    obtain ⟨text, heq, htext⟩ := h.header []
    obtain ⟨text', heq', htext'⟩ := h.footer []
    obtain ⟨text'', heq'', htext''⟩ := h.prompt []
    rw [appendPrompt_eq hprompts] at heq''
    obtain rfl := bar_inj hpos heq
    obtain rfl := bar_inj hpos heq'
    obtain rfl := List.append_cancel_left heq''
    exact ⟨htext, htext', htext''⟩
  · rintro ⟨hh, hf, hp⟩
    refine ⟨fun screenBuffer => ⟨_, ?_, hh⟩, fun screenBuffer => ⟨_, ?_, hf⟩,
      fun screenBuffer => ⟨_, appendPrompt_eq hprompts screenBuffer, hp⟩⟩
    · rw [DisplayConsole.appendHeader, bar_eq _ (barObligations_met hpos _)]
    · rw [DisplayConsole.appendFooter, bar_eq _ (barObligations_met hpos _)]

/-- A header and a footer of ASCII and a prompt that is cut between two characters. -/
theorem rowsWhole_iff_ascii :
    let con := { DisplayConsole.new [71, 68, 70] [111, 107] .Default .Default 18 8 with
      mPromptBuffer := [97, 0xED, 0x95, 0x9C, 0xEA, 0xB8, 0x80, 98] }
    RowsWhole (fun _ => []) con ↔
      (∀ b ∈ con.mDisplay.mHeader.take (con.mConsoleWidth - 1), b < 0x80) ∧
      (∀ b ∈ con.mDisplay.mFooter.take (con.mConsoleWidth - 1), b < 0x80) ∧
      (con.mPromptBuffer.length + 11 ≤ con.mConsoleWidth ∨
        isTail (con.mPromptBuffer.getD
          (con.mPromptBuffer.length - (con.mConsoleWidth - 11)) 0) = false) := by
  refine rowsWhole_iff (show 18 ≤ 18 from le_rfl) ⟨[[71], [68], [70]], ?_, rfl⟩
    ⟨[[111], [107]], ?_, rfl⟩ ⟨[[97], [0xED, 0x95, 0x9C], [0xEA, 0xB8, 0x80], [98]], ?_, rfl⟩
  · simp only [List.forall_mem_cons]
    exact ⟨.ascii (by decide) (by decide), .ascii (by decide) (by decide),
      .ascii (by decide) (by decide), fun _ h => absurd h List.not_mem_nil⟩
  · simp only [List.forall_mem_cons]
    exact ⟨.ascii (by decide) (by decide), .ascii (by decide) (by decide),
      fun _ h => absurd h List.not_mem_nil⟩
  · simp only [List.forall_mem_cons]
    exact ⟨.ascii (by decide) (by decide),
      .utf8 (by decide) (by decide) rfl rfl (by decide) (by decide),
      .utf8 (by decide) (by decide) rfl rfl (by decide) (by decide), .ascii (by decide) (by decide),
      fun _ h => absurd h List.not_mem_nil⟩

/-- A header of one three-byte character: its row is two characters short. -/
theorem rows_three_byte :
    let con := DisplayConsole.new [0xED, 0x95, 0x9C] [] .Default .Default 18 8
    Whole con.mDisplay.mHeader ∧ Whole con.mDisplay.mFooter ∧ Whole con.mPromptBuffer ∧
      ¬ RowsWhole (fun _ => []) con := by
  refine ⟨⟨[[0xED, 0x95, 0x9C]], ?_, rfl⟩, whole_nil, whole_nil, ?_⟩
  · intro c hc
    rw [List.mem_singleton.mp hc]
    exact .utf8 (by decide) (by decide) rfl rfl (by decide) (by decide)
  · intro h
    obtain ⟨text, heq, -, hcount⟩ := h.header []
    obtain rfl := bar_inj (by decide) heq
    exact absurd hcount (by decide)

end Gdf
