/-
Splitting a list at its separators.

`List.splitOnP` splits a list at the elements that satisfy `p`.  The pieces are followed
in two ways: while the list grows at its end, and through a list whose elements stand
for several others.

* `split_concat_end`, `split_concat_other` — one element more at the end;
* `splitOnP_flatMap` — splitting what a list stands for is splitting the list;
* `of_mem_splitOnP`, `length_splitOnP` — what the pieces hold, and how many there are;
* `splitOnP_lines` — the pieces of a list that was put together of them;
* `dropLast_splitOnP_append` — what stands behind a separator adds pieces of its own.
-/
import Mathlib.Data.List.Infix

namespace Pieces

variable {α β : Type*} {p : α → Bool} {q : β → Bool}

theorem exists_splitOnP (l : List α) : ∃ init last, l.splitOnP p = init ++ [last] := by
  rcases List.eq_nil_or_concat (l.splitOnP p) with h | ⟨init, last, h⟩
  · exact absurd h (List.splitOnP_ne_nil p l)
  · exact ⟨init, last, by rw [h, List.concat_eq_append]⟩

/-- A separator opens an empty piece. -/
theorem split_concat_end {b : α} (h : p b = true) (l : List α) :
    (l ++ [b]).splitOnP p = l.splitOnP p ++ [[]] := by
  rw [List.splitOnP_append_cons l [] h, List.splitOnP_nil]

/-- Anything else goes to the end of the last piece. -/
theorem split_concat_other {b : α} (h : p b = false) (l : List α) :
    ∀ {init : List (List α)} {last : List α}, l.splitOnP p = init ++ [last] →
      (l ++ [b]).splitOnP p = init ++ [last ++ [b]] := by
  induction l with
  | nil =>
    intro init last hsplit
    have hsplit' : [] ++ [[]] = init ++ [last] := hsplit
    obtain ⟨rfl, hlast⟩ := List.append_inj' hsplit' rfl
    obtain rfl := List.singleton_inj.mp hlast
    rw [List.nil_append, List.splitOnP_eq_singleton (by simp [h])]
    rfl
  | cons a l ih =>
    intro init last hsplit
    obtain ⟨init', last', hl⟩ := exists_splitOnP (p := p) l
    rw [List.splitOnP_cons_eq_if_modifyHead, hl] at hsplit
    rw [List.cons_append, List.splitOnP_cons_eq_if_modifyHead, ih hl]
    by_cases ha : p a = true
    · -- `a` is a separator itself
      rw [if_pos ha, ← List.cons_append] at hsplit
      obtain ⟨rfl, hlast⟩ := List.append_inj' hsplit rfl
      obtain rfl := List.singleton_inj.mp hlast
      rw [if_pos ha, List.cons_append]
    · rw [if_neg ha] at hsplit ⊢
      rcases init' with _ | ⟨head, tail⟩
      · have hsplit' : [] ++ [a :: last'] = init ++ [last] := hsplit
        obtain ⟨rfl, hlast⟩ := List.append_inj' hsplit' rfl
        obtain rfl := List.singleton_inj.mp hlast
        rfl
      · have hsplit' : ((a :: head) :: tail) ++ [last'] = init ++ [last] := hsplit
        obtain ⟨rfl, hlast⟩ := List.append_inj' hsplit' rfl
        obtain rfl := List.singleton_inj.mp hlast
        rfl

theorem splitOnP_append {l : List α} (h : ∀ a ∈ l, p a = false) (rest : List α) :
    (l ++ rest).splitOnP p = (rest.splitOnP p).modifyHead (l ++ ·) := by
  obtain ⟨piece, pieces, hrest⟩ := List.exists_cons_of_ne_nil (List.splitOnP_ne_nil p rest)
  rw [hrest]
  induction l with
  | nil => exact hrest
  | cons a l ih =>
    obtain ⟨ha, hl⟩ := List.forall_mem_cons.mp h
    rw [List.cons_append, List.splitOnP_cons_eq_if_modifyHead, if_neg (by simp [ha]), ih hl]
    rfl

/-- Splitting what a list stands for is splitting the list. -/
theorem splitOnP_flatMap {f : β → List α} (hsep : ∀ b, q b = true → ∃ a, f b = [a] ∧ p a = true)
    (hother : ∀ b, q b = false → ∀ a ∈ f b, p a = false) (l : List β) :
    (l.flatMap f).splitOnP p = (l.splitOnP q).map fun piece => piece.flatMap f := by
  induction l with
  | nil => rfl
  | cons b l ih =>
    rw [List.flatMap_cons, List.splitOnP_cons_eq_if_modifyHead]
    by_cases hb : q b = true
    · obtain ⟨a, hf, ha⟩ := hsep b hb
      rw [hf, List.singleton_append, List.splitOnP_cons_eq_if_modifyHead, if_pos ha, if_pos hb,
        List.map_cons, ih]
      rfl
    · rw [splitOnP_append (hother b (by simpa using hb)), if_neg hb, ih]
      rcases l.splitOnP q with _ | ⟨piece, pieces⟩ <;> rfl

theorem splitOnP_filter {r : α → Bool} (h : ∀ a, p a = true → r a = true) (l : List α) :
    (l.filter r).splitOnP p = (l.splitOnP p).map fun piece => piece.filter r := by
  have hfilter : ∀ l : List α, l.filter r = l.flatMap fun a => if r a then [a] else [] := by
    intro l
    induction l with
    | nil => rfl
    | cons a l ih =>
      rw [List.filter_cons, List.flatMap_cons, ih]
      split <;> rfl
  simp only [hfilter]
  refine splitOnP_flatMap (fun a ha => ⟨a, if_pos (h a ha), ha⟩) (fun a ha a' ha' => ?_) l
  split at ha'
  · rwa [List.mem_singleton.mp ha']
  · exact absurd ha' List.not_mem_nil

/-- The pieces hold what the list holds, and nothing that it was split at. -/
theorem of_mem_splitOnP {l : List α} :
    ∀ piece ∈ l.splitOnP p, ∀ a ∈ piece, a ∈ l ∧ p a = false := by
  induction l with
  | nil =>
    intro piece hpiece a ha
    rw [List.splitOnP_nil, List.mem_singleton] at hpiece
    rw [hpiece] at ha
    exact absurd ha List.not_mem_nil
  | cons b l ih =>
    have hmem : ∀ piece ∈ l.splitOnP p, ∀ a ∈ piece, a ∈ b :: l ∧ p a = false := by
      intro piece hpiece a ha
      obtain ⟨hal, hpa⟩ := ih piece hpiece a ha
      exact ⟨List.mem_cons_of_mem b hal, hpa⟩
    obtain ⟨first, rest, hl⟩ := List.exists_cons_of_ne_nil (List.splitOnP_ne_nil p l)
    rw [hl] at hmem
    obtain ⟨hfirst, hrest⟩ := List.forall_mem_cons.mp hmem
    rw [List.splitOnP_cons_eq_if_modifyHead, hl]
    by_cases hb : p b = true
    · rw [if_pos hb]
      exact List.forall_mem_cons.mpr ⟨fun a ha => absurd ha List.not_mem_nil, hmem⟩
    · rw [if_neg hb, List.modifyHead_cons]
      exact List.forall_mem_cons.mpr ⟨List.forall_mem_cons.mpr
        ⟨⟨List.mem_cons_self, by simpa using hb⟩, hfirst⟩, hrest⟩

/-- There is one piece more than there are separators. -/
theorem length_splitOnP (l : List α) : (l.splitOnP p).length = l.countP p + 1 := by
  induction l with
  | nil => rfl
  | cons a l ih =>
    rw [List.splitOnP_cons_eq_if_modifyHead, List.countP_cons]
    by_cases ha : p a = true
    · rw [if_pos ha, if_pos ha, List.length_cons, ih]
    · rw [if_neg ha, if_neg ha, List.length_modifyHead, ih, Nat.add_zero]

/-- Pieces without separators, each with one behind it. -/
theorem splitOnP_lines {sep : α} (hsep : p sep = true) {ls : List (List α)}
    (h : ∀ l ∈ ls, ∀ a ∈ l, p a = false) :
    (ls.flatMap (· ++ [sep])).splitOnP p = ls ++ [[]] := by
  induction ls with
  | nil => rfl
  | cons l ls ih =>
    obtain ⟨hl, hls⟩ := List.forall_mem_cons.mp h
    rw [List.flatMap_cons, List.append_assoc, splitOnP_append hl, List.singleton_append,
      List.splitOnP_cons_eq_if_modifyHead, if_pos hsep, ih hls, List.modifyHead_cons,
      List.append_nil, List.cons_append]

/-- A list behind a separator adds its own pieces; the last one of a list is not counted. -/
theorem dropLast_splitOnP_append {sep : α} (hsep : p sep = true) (l rest : List α) :
    ((l ++ [sep] ++ rest).splitOnP p).dropLast =
      ((l ++ [sep]).splitOnP p).dropLast ++ (rest.splitOnP p).dropLast := by
  rw [split_concat_end hsep, List.dropLast_concat, List.append_assoc, List.singleton_append,
    List.splitOnP_append_cons l rest hsep, List.dropLast_append_of_ne_nil
      (List.splitOnP_ne_nil p rest)]

end Pieces
