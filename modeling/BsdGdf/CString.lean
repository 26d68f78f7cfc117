/-
NUL-terminated strings.

A C function that is handed a `char*` into a byte string sees the bytes up to
the first zero byte.  `cstr l` is what it sees of `l`, `strlen l` how much that
is.  The lemmas say when nothing is lost (`cstr_eq_self_iff`), and that reading
on from a later position inside the visible part sees the rest of it
(`cstr_drop`).
-/
import Mathlib.Data.Nat.Notation
import Mathlib.Data.List.TakeWhile
import Mathlib.Data.List.Infix

/-- A byte string. -/
abbrev Bytes := List UInt8

/-- The bytes before the first NUL. -/
def cstr (l : Bytes) : Bytes := l.takeWhile (· ≠ 0)

/-- The number of bytes before the first NUL. -/
def strlen (l : Bytes) : ℕ := (cstr l).length

@[simp] theorem cstr_nil : cstr [] = [] := rfl

theorem cstr_cons (b : UInt8) (l : Bytes) :
    cstr (b :: l) = if b = 0 then [] else b :: cstr l := by
  by_cases hb : b = 0 <;> simp [cstr, hb]

theorem cstr_isPrefix (l : Bytes) : cstr l <+: l := List.takeWhile_prefix _

theorem length_cstr (l : Bytes) : (cstr l).length = strlen l := rfl

theorem strlen_le (l : Bytes) : strlen l ≤ l.length := (cstr_isPrefix l).length_le

theorem zero_notMem_cstr (l : Bytes) : 0 ∉ cstr l := by
  intro h
  simpa using List.mem_takeWhile_imp h

/-- Nothing is lost exactly when there is no NUL. -/
theorem cstr_eq_self_iff {l : Bytes} : cstr l = l ↔ 0 ∉ l := by
  constructor
  · intro h
    rw [← h]
    exact zero_notMem_cstr l
  · intro h
    refine List.takeWhile_eq_self_iff.mpr fun b hb => ?_
    have hb0 : b ≠ 0 := by
      rintro rfl
      exact h hb
    simpa using hb0

/-- The terminator itself is never seen. -/
@[simp] theorem cstr_append_zero (l : Bytes) : cstr (l ++ [0]) = cstr l := by
  induction l with
  | nil => rfl
  | cons b l ih => rw [List.cons_append, cstr_cons, cstr_cons, ih]

@[simp] theorem take_strlen (l : Bytes) : l.take (strlen l) = cstr l :=
  (List.prefix_iff_eq_take.mp (cstr_isPrefix l)).symm

theorem take_eq_take_cstr {l : Bytes} {n : ℕ} (h : n ≤ strlen l) :
    l.take n = (cstr l).take n := by
  rw [← take_strlen l, List.take_take, min_eq_left h]

/-- Reading on from inside the visible part sees the rest of it. -/
theorem cstr_drop {l : Bytes} {n : ℕ} (h : n ≤ strlen l) :
    cstr (l.drop n) = (cstr l).drop n := by
  induction l generalizing n with
  | nil => simp
  | cons b l ih =>
    rcases n with _ | n
    · rfl
    · have hb : b ≠ 0 := by
        rintro rfl
        simp [strlen, cstr_cons] at h
      have hn : n ≤ strlen l := by simpa [strlen, cstr_cons, hb] using h
      rw [cstr_cons, if_neg hb, List.drop_succ_cons, List.drop_succ_cons, ih hn]

/-- A string that was read up to position `i` and then `n` bytes further. -/
theorem take_append_take_cstr_drop {l : Bytes} {i n : ℕ} (h : n ≤ strlen (l.drop i)) :
    l.take i ++ (cstr (l.drop i)).take n = l.take (i + n) := by
  rw [← take_eq_take_cstr h, ← List.take_add]

/-- Position `i` and the string length from there on add up to the string length. -/
theorem add_strlen_drop {l : Bytes} {i : ℕ} (h : i ≤ strlen l) :
    i + strlen (l.drop i) = strlen l := by
  rw [strlen, cstr_drop h, List.length_drop, length_cstr]
  omega

/-- Cutting every chunk at its first NUL loses nothing exactly when the whole
stream has no NUL. -/
theorem flatten_map_cstr_eq_iff {chunks : List Bytes} :
    (chunks.map cstr).flatten = chunks.flatten ↔ 0 ∉ chunks.flatten := by
  constructor
  · intro h
    rw [← h]
    intro hmem
    obtain ⟨l, hl, h0⟩ := List.mem_flatten.mp hmem
    obtain ⟨c, -, rfl⟩ := List.mem_map.mp hl
    exact zero_notMem_cstr c h0
  · intro h
    refine congrArg List.flatten (List.map_congr_left fun c hc => ?_) |>.trans
      (congrArg List.flatten (List.map_id chunks))
    exact cstr_eq_self_iff.mpr fun h0 => h (List.mem_flatten.mpr ⟨c, hc, h0⟩)
