/-
Byte streams over an arbitrary alphabet: a pipe that is drained in pieces, and
the cutting of a stream into delimited messages.

* `Pipe` — what was put in, what was taken out and what is still inside, with
  the law that nothing is lost or reordered carried as a field;
* `find d l` — the position of the first occurrence of `d` in `l`;
* `split d l` — the messages of `l` at its leftmost non-overlapping occurrences
  of `d`, and the unfinished rest;
* `Reads d T ms r` — pulling messages one by one off the front of `T` has given
  `ms` and left `r`.

The fact that makes framing independent of how a stream arrives is
`find_append`: a match found in a prefix of the stream is the match of the whole
stream.  `Reads.append` and `Reads.split_eq` carry it to message lists.
-/
import Mathlib.Data.List.Infix
import Mathlib.Data.Nat.Notation

variable {α : Type*}

/-! ### Pipes -/

/-- A first-in first-out pipe with its history. -/
structure Pipe (α : Type*) where
  pushed : List α
  taken : List α
  pending : List α
  conserve : taken ++ pending = pushed

namespace Pipe

/-- A new pipe. -/
def empty : Pipe α := ⟨[], [], [], rfl⟩

/-- Put `l` in at the back. -/
def push (p : Pipe α) (l : List α) : Pipe α :=
  ⟨p.pushed ++ l, p.taken, p.pending ++ l, by rw [← List.append_assoc, p.conserve]⟩

/-- Take up to `n` elements out at the front. -/
def take (p : Pipe α) (n : ℕ) : Pipe α :=
  ⟨p.pushed, p.taken ++ p.pending.take n, p.pending.drop n, by
    rw [List.append_assoc, List.take_append_drop, p.conserve]⟩

/-- Everything was taken exactly when nothing is pending. -/
theorem taken_eq_pushed_iff (p : Pipe α) : p.taken = p.pushed ↔ p.pending = [] := by
  rw [← p.conserve]
  simp

end Pipe

/-! ### The first occurrence of a word -/

namespace Framing

variable [DecidableEq α] {d l m : List α} {p : ℕ}

/-- The position of the first occurrence of `d` in a list. -/
def find (d : List α) : List α → Option ℕ
  | [] => if d = [] then some 0 else none
  | a :: l => if d <+: a :: l then some 0 else (find d l).map (· + 1)

theorem find_eq_some_iff : ∀ {l : List α} {p : ℕ},
    find d l = some p ↔ p ≤ l.length ∧ d <+: l.drop p ∧ ∀ q < p, ¬ d <+: l.drop q := by
  intro l
  induction l with
  | nil =>
    intro p
    simp only [find]
    by_cases hd : d = []
    · rw [if_pos hd, Option.some_inj]
      constructor
      · rintro rfl
        simp [hd]
      · rintro ⟨hp, -, -⟩
        exact (Nat.le_zero.mp hp).symm
    · rw [if_neg hd]
      simp [hd]
  | cons a l ih =>
    intro p
    simp only [find]
    by_cases hd : d <+: a :: l
    · rw [if_pos hd, Option.some_inj]
      constructor
      · rintro rfl
        exact ⟨Nat.zero_le _, hd, fun q hq => absurd hq (Nat.not_lt_zero q)⟩
      · rintro ⟨-, -, hmin⟩
        by_contra hp
        exact hmin 0 (by omega) hd
    · rw [if_neg hd]
      rcases p with _ | p
      · simp [hd]
      · rw [Option.map_eq_some_iff]
        constructor
        · rintro ⟨p', hp', heq⟩
          obtain rfl : p' = p := by omega
          obtain ⟨h1, h2, h3⟩ := ih.mp hp'
          refine ⟨by simpa using h1, by simpa using h2, fun q hq => ?_⟩
          rcases q with _ | q
          · exact hd
          · simpa using h3 q (by omega)
        · rintro ⟨h1, h2, h3⟩
          refine ⟨p, ih.mpr ⟨by simpa using h1, by simpa using h2, fun q hq => ?_⟩, rfl⟩
          simpa using h3 (q + 1) (by omega)

/-- No occurrence at all. -/
theorem find_eq_none_iff : find d l = none ↔ ¬ d <:+: l := by
  induction l with
  | nil =>
    simp only [find]
    by_cases hd : d = [] <;> simp [hd]
  | cons a l ih =>
    simp only [find]
    rw [List.infix_cons_iff]
    by_cases hd : d <+: a :: l
    · rw [if_pos hd]
      simp [hd]
    · rw [if_neg hd, Option.map_eq_none_iff, ih]
      simp [hd]

theorem find_lt (h : find d l = some p) : p + d.length ≤ l.length := by
  obtain ⟨hp, hd, -⟩ := find_eq_some_iff.mp h
  have := hd.length_le
  rw [List.length_drop] at this
  omega

omit [DecidableEq α] in
/-- An occurrence inside a prefix is an occurrence in the prefix. -/
theorem isPrefix_drop_append_iff {q : ℕ} (hq : q + d.length ≤ l.length) :
    d <+: (l ++ m).drop q ↔ d <+: l.drop q := by
  rw [List.drop_append_of_le_length (by omega)]
  constructor
  · intro h
    refine List.prefix_of_prefix_length_le h (List.prefix_append _ _) ?_
    rw [List.length_drop]
    omega
  · intro h
    exact h.trans (List.prefix_append _ _)

/-- **A match in a prefix of the stream is the match of the whole stream.** -/
theorem find_append (h : find d l = some p) (m : List α) : find d (l ++ m) = some p := by
  have hle := find_lt h
  obtain ⟨hp, hd, hmin⟩ := find_eq_some_iff.mp h
  refine find_eq_some_iff.mpr ⟨?_, (isPrefix_drop_append_iff hle).mpr hd, fun q hq => ?_⟩
  · rw [List.length_append]
    omega
  · rw [isPrefix_drop_append_iff (by omega)]
    exact hmin q hq

/-- The message and its delimiter, on their own, match at the same place. -/
theorem find_take_append (h : find d l = some p) : find d (l.take p ++ d) = some p := by
  have hle := find_lt h
  obtain ⟨hp, hd, hmin⟩ := find_eq_some_iff.mp h
  have hlen : (l.take p).length = p := by simp [hp]
  refine find_eq_some_iff.mpr ⟨by simp [hp], ?_, fun q hq hpre => ?_⟩
  · rw [List.drop_append_of_le_length (by omega), List.drop_eq_nil_of_le (by omega)]
    exact List.prefix_refl _
  · obtain ⟨t, ht⟩ := hd
    refine hmin q hq ?_
    have hl : l = l.take p ++ d ++ t := by rw [List.append_assoc, ht, List.take_append_drop]
    rw [hl, isPrefix_drop_append_iff (by simp; omega)]
    exact hpre

/-- What stands before the match, the match, and what follows. -/
theorem take_append_drop_of_find (h : find d l = some p) :
    l.take p ++ d ++ l.drop (p + d.length) = l := by
  obtain ⟨-, ⟨t, ht⟩, -⟩ := find_eq_some_iff.mp h
  rw [← List.drop_drop, ← ht, List.drop_left, List.append_assoc, ht, List.take_append_drop]

/-! ### Splitting a stream at a delimiter -/

/-- The messages of a stream, and the unfinished rest.  The empty delimiter
cuts nothing. -/
def split (d : List α) (l : List α) : List (List α) × List α :=
  if _hd : d = [] then ([], l)
  else match _h : find d l with
    | none => ([], l)
    | some p => (l.take p :: (split d (l.drop (p + d.length))).1,
        (split d (l.drop (p + d.length))).2)
  termination_by l.length
  decreasing_by all_goals
    have := find_lt _h
    have := List.length_pos_iff.mpr _hd
    rw [List.length_drop]
    omega

theorem split_of_none (h : find d l = none) : split d l = ([], l) := by
  rw [split]
  split
  · rfl
  · split
    · rfl
    · rename_i hp
      rw [h] at hp
      exact absurd hp (by simp)

theorem split_of_some (hd : d ≠ []) (h : find d l = some p) :
    split d l = (l.take p :: (split d (l.drop (p + d.length))).1,
      (split d (l.drop (p + d.length))).2) := by
  rw [split, dif_neg hd]
  split
  · rename_i hp
    rw [h] at hp
    exact absurd hp (by simp)
  · rename_i q hq
    obtain rfl : p = q := by
      rw [h] at hq
      exact Option.some_inj.mp hq
    rfl

/-- Pulling messages one by one off the front of `T` has given `ms` and left
`r`. -/
inductive Reads (d : List α) : List α → List (List α) → List α → Prop
  | nil (T : List α) : Reads d T [] T
  | cons {T : List α} {ms : List (List α)} {r : List α} {p : ℕ} (h : find d T = some p)
      (rest : Reads d (T.drop (p + d.length)) ms r) : Reads d T (T.take p :: ms) r

variable {T r : List α} {ms : List (List α)}

/-- What arrives later does not change the messages pulled so far. -/
theorem Reads.append (h : Reads d T ms r) (x : List α) : Reads d (T ++ x) ms (r ++ x) := by
  -- the induction is on the messages: each was matched inside the old stream
  induction h with
  | nil T => exact .nil _
  | @cons T ms r p hp _ ih =>
    have hle := find_lt hp
    rw [← List.drop_append_of_le_length hle] at ih
    have hcons := Reads.cons (find_append hp x) ih
    rwa [List.take_append_of_le_length (by omega)] at hcons

/-- Pulling one more message. -/
theorem Reads.concat (h : Reads d T ms r) (hp : find d r = some p) :
    Reads d T (ms ++ [r.take p]) (r.drop (p + d.length)) := by
  induction h with
  | nil T => exact .cons hp (.nil _)
  | cons hq _ ih => exact .cons hq (ih hp)

/-- The messages pulled so far are the first messages of the split, and the rest
is split like a stream of its own. -/
theorem Reads.split_eq (hd : d ≠ []) (h : Reads d T ms r) :
    split d T = (ms ++ (split d r).1, (split d r).2) := by
  induction h with
  | nil T => rfl
  | cons hp _ ih => rw [split_of_some hd hp, ih]; rfl

/-- As many messages off the same stream are the same messages and leave the same
rest. -/
theorem Reads.unique {ms' : List (List α)} {r' : List α} (h : Reads d T ms r)
    (h' : Reads d T ms' r') (hlen : ms.length = ms'.length) : ms = ms' ∧ r = r' := by
  induction h generalizing ms' with
  | nil T =>
    cases h' with
    | nil => exact ⟨rfl, rfl⟩
    | cons => simp at hlen
  | cons hp _ ih =>
    cases h' with
    | nil => simp at hlen
    | cons hq hrest =>
      obtain rfl := Option.some_inj.mp (hp.symm.trans hq)
      obtain ⟨rfl, rfl⟩ := ih hrest (by simpa using hlen)
      exact ⟨rfl, rfl⟩

end Framing
