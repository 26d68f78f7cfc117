/-
Editing a line with a key that erases.

A script inserts elements at the end of a line and erases the last one that is left;
on an empty line erasing does nothing.  The same keys can be read twice: `raw` inserts
the elements that arrive, `meant` inserts pieces, each of them all elements of one key,
and nothing for a key that is stray.

* `foldl_apply` — a script keeps a line but for its last `overrun` elements, and then
  inserts its own result;
* `erases_iff` — the overrun as a matter of counting: some of the first keys erase
  more than they insert;
* `result_raw_eq_iff` — the two readings leave the same line exactly if every piece that
  is erased, and everything stray, is erased to its first element.
-/
import Mathlib.Data.List.Infix
import Mathlib.Data.Nat.Notation

namespace LineEdit

variable {α κ : Type*}

/-- One step of a script. -/
inductive Edit (α : Type*)
  | insert (text : List α)
  | erase

/-- The line after one step. -/
def Edit.apply (left : List α) : Edit α → List α
  | .insert text => left ++ text
  | .erase => left.dropLast

/-- The line that a script leaves, from an empty one. -/
def result (es : List (Edit α)) : List α := es.foldl Edit.apply []

/-- How many elements of a line before it a script erases, if there are that many. -/
def overrun : List (Edit α) → ℕ
  | [] => 0
  | .insert text :: es => overrun es - text.length
  | .erase :: es => overrun es + 1

/-- How many elements a script inserts. -/
def inserted : List (Edit α) → ℕ
  | [] => 0
  | .insert text :: es => text.length + inserted es
  | .erase :: es => inserted es

/-- How often a script erases. -/
def erasures : List (Edit α) → ℕ
  | [] => 0
  | .insert _ :: es => erasures es
  | .erase :: es => erasures es + 1

/-- A script erases `n` elements before it: some first part of it erases them and all that
it inserts. -/
def Erases (n : ℕ) (es : List (Edit α)) : Prop :=
  ∃ t, t <+: es ∧ n + inserted t ≤ erasures t

/-! ### One script -/

section Script

variable {n : ℕ} {text : List α} {es : List (Edit α)}

/-- A script from a line that is not empty. -/
theorem foldl_apply (left : List α) (es : List (Edit α)) :
    es.foldl Edit.apply left = left.take (left.length - overrun es) ++ result es := by
  induction es generalizing left with
  | nil =>
    rw [overrun, Nat.sub_zero, List.take_length]
    exact (List.append_nil left).symm
  | cons e es ih =>
    cases e with
    | insert text =>
      have hresult : result (.insert text :: es) =
          text.take (text.length - overrun es) ++ result es := ih text
      have htake : left.take (left.length + text.length - overrun es) =
          left.take (left.length - (overrun es - text.length)) := by
        rcases Nat.le_total (overrun es) text.length with hle | hle
        · rw [List.take_of_length_le (by omega), List.take_of_length_le (by omega)]
        · rw [show left.length + text.length - overrun es =
            left.length - (overrun es - text.length) by omega]
      have hrest : left.length + text.length - overrun es - left.length =
          text.length - overrun es := by omega
      rw [List.foldl_cons, hresult, overrun]
      show es.foldl Edit.apply (left ++ text) = _
      rw [ih (left ++ text), List.length_append, List.take_append, htake, hrest,
        List.append_assoc]
    | erase =>
      have hresult : result (.erase :: es) = result es := rfl
      rw [List.foldl_cons, hresult, overrun]
      show es.foldl Edit.apply left.dropLast = _
      rw [ih left.dropLast, List.length_dropLast, List.dropLast_eq_take, List.take_take,
        min_eq_left (by omega), Nat.sub_sub, Nat.add_comm 1]

theorem result_insert (text : List α) (es : List (Edit α)) :
    result (.insert text :: es) = text.take (text.length - overrun es) ++ result es :=
  foldl_apply text es

theorem result_erase (es : List (Edit α)) : result (.erase :: es) = result es := rfl

theorem erases_insert :
    Erases n (.insert text :: es) ↔ n = 0 ∨ Erases (n + text.length) es := by
  constructor
  · rintro ⟨t, ht, hle⟩
    rcases t with _ | ⟨e, t⟩
    · exact .inl (Nat.le_zero.mp hle)
    obtain ⟨rfl, ht'⟩ := List.cons_prefix_cons.mp ht
    rw [inserted, erasures] at hle
    exact .inr ⟨t, ht', by omega⟩
  · rintro (rfl | ⟨t, ht, hle⟩)
    · exact ⟨[], List.nil_prefix, le_rfl⟩
    · refine ⟨.insert text :: t, List.cons_prefix_cons.mpr ⟨rfl, ht⟩, ?_⟩
      rw [inserted, erasures]
      omega

theorem erases_erase : Erases n (.erase :: es) ↔ Erases (n - 1) es := by
  constructor
  · rintro ⟨t, ht, hle⟩
    rcases t with _ | ⟨e, t⟩
    · obtain rfl : n = 0 := Nat.le_zero.mp hle
      exact ⟨[], List.nil_prefix, le_rfl⟩
    obtain ⟨rfl, ht'⟩ := List.cons_prefix_cons.mp ht
    rw [inserted, erasures] at hle
    rcases Nat.eq_zero_or_pos n with rfl | hpos
    · exact ⟨[], List.nil_prefix, le_rfl⟩
    · exact ⟨t, ht', by omega⟩
  · rintro ⟨t, ht, hle⟩
    refine ⟨.erase :: t, List.cons_prefix_cons.mpr ⟨rfl, ht⟩, ?_⟩
    rw [inserted, erasures]
    omega

/-- The overrun is all that a script can erase. -/
theorem erases_iff (n : ℕ) (es : List (Edit α)) : Erases n es ↔ n ≤ overrun es := by
  induction es generalizing n with
  | nil =>
    constructor
    · rintro ⟨t, ht, hle⟩
      rw [List.prefix_nil.mp ht] at hle
      exact hle
    · intro hle
      exact ⟨[], List.nil_prefix, hle⟩
  | cons e es ih =>
    cases e with
    | insert text =>
      rw [erases_insert, ih, overrun]
      omega
    | erase =>
      rw [erases_erase, ih, overrun]
      omega

instance (n : ℕ) (es : List (Edit α)) : Decidable (Erases n es) :=
  decidable_of_iff _ (erases_iff n es).symm

end Script

/-! ### Two readings of the same keys -/

/-- A key: it inserts a piece, it inserts something that is not meant, or it erases. -/
inductive Press (α : Type*)
  | piece (text : List α) (h : text ≠ [])
  | stray (text : List α)
  | erase

/-- What arrives. -/
def Press.raw : Press α → Edit α
  | .piece text _ => .insert text
  | .stray text => .insert text
  | .erase => .erase

/-- What is meant. -/
def Press.meant : Press α → Edit (List α)
  | .piece text _ => .insert [text]
  | .stray _ => .insert []
  | .erase => .erase

/-- What a key inserted is erased to its first element if it is not meant to stay. -/
def Press.Gone (rest : List (Press α)) : Press α → Prop
  | .piece text _ => Erases 1 (rest.map meant) → Erases text.length (rest.map raw)
  | .stray text => Erases text.length (rest.map raw)
  | .erase => True

/-- Pieces are longer than one, and stray text is meant to be nothing. -/
theorem overrun_raw_le (ps : List (Press α)) :
    overrun (ps.map Press.raw) ≤ overrun (ps.map Press.meant) := by
  induction ps with
  | nil => exact le_rfl
  | cons p ps ih =>
    rw [List.map_cons, List.map_cons]
    cases p with
    | piece text h =>
      have hpos := List.length_pos_iff.mpr h
      rw [Press.raw, Press.meant, overrun, overrun, List.length_singleton]
      omega
    | stray text =>
      rw [Press.raw, Press.meant, overrun, overrun, List.length_nil]
      omega
    | erase =>
      rw [Press.raw, Press.meant, overrun, overrun]
      omega

/-- A key whose two readings do not differ. -/
def Press.Single : Press α → Prop
  | .piece text _ => text.length = 1
  | .stray text => text = []
  | .erase => True

theorem overrun_raw_eq {ps : List (Press α)} (h : ∀ p ∈ ps, p.Single) :
    overrun (ps.map Press.raw) = overrun (ps.map Press.meant) := by
  induction ps with
  | nil => rfl
  | cons p ps ih =>
    obtain ⟨hp, hps⟩ := List.forall_mem_cons.mp h
    rw [List.map_cons, List.map_cons]
    cases p with
    | piece text hne =>
      have hlen : text.length = 1 := hp
      rw [Press.raw, Press.meant, overrun, overrun, ih hps, hlen, List.length_singleton]
    | stray text =>
      have hnil : text = [] := hp
      rw [Press.raw, Press.meant, overrun, overrun, ih hps, hnil, List.length_nil,
        List.length_nil]
    | erase => rw [Press.raw, Press.meant, overrun, overrun, ih hps]

/-- What is left of a piece that is meant. -/
theorem flatten_take_piece (text : List α) (n : ℕ) :
    (([text] : List (List α)).take (1 - n)).flatten = if n = 0 then text else [] := by
  rcases n with _ | n
  · rw [if_pos rfl, Nat.sub_zero, List.take_succ_cons, List.take_nil, List.flatten_singleton]
  · rw [if_neg (Nat.succ_ne_zero n), Nat.sub_eq_zero_of_le (by omega), List.take_zero]
    rfl

/-- Nothing that is meant to stay is erased. -/
theorem length_meant_le (ps : List (Press α)) :
    (result (ps.map Press.meant)).flatten.length ≤ (result (ps.map Press.raw)).length := by
  induction ps with
  | nil => exact le_rfl
  | cons p ps ih =>
    have hle := overrun_raw_le ps
    rw [List.map_cons, List.map_cons]
    cases p with
    | piece text h =>
      rw [Press.raw, Press.meant, result_insert, result_insert, List.flatten_append,
        List.length_append, List.length_append, List.length_take, List.length_singleton,
        flatten_take_piece]
      split
      · omega
      · rw [List.length_nil]
        omega
    | stray text =>
      rw [Press.raw, Press.meant, result_insert, result_insert, List.take_nil, List.nil_append,
        List.length_append]
      omega
    | erase =>
      rw [Press.raw, Press.meant, result_erase, result_erase]
      exact ih

/-- Two lines with parts that are no longer on one side than on the other. -/
theorem append_eq_iff {a b c d : List α} (hac : c.length ≤ a.length)
    (hbd : d.length ≤ b.length) : a ++ b = c ++ d ↔ a = c ∧ b = d := by
  constructor
  · intro h
    have hlen := congrArg List.length h
    rw [List.length_append, List.length_append] at hlen
    exact List.append_inj h (by omega)
  · rintro ⟨rfl, rfl⟩
    rfl

/-- One key more in front. -/
theorem result_raw_eq_cons (p : Press α) (ps : List (Press α)) :
    result ((p :: ps).map Press.raw) = (result ((p :: ps).map Press.meant)).flatten ↔
      p.Gone ps ∧ result (ps.map Press.raw) = (result (ps.map Press.meant)).flatten := by
  have hle := overrun_raw_le ps
  have hlen := length_meant_le ps
  rw [List.map_cons, List.map_cons]
  cases p with
  | piece text h =>
    have hpos := List.length_pos_iff.mpr h
    rw [Press.raw, Press.meant, result_insert, result_insert, List.flatten_append,
      List.length_singleton, flatten_take_piece, Press.Gone, erases_iff, erases_iff]
    by_cases hkept : overrun (ps.map Press.meant) = 0
    · -- the piece is meant to stay, and stays
      rw [if_pos hkept, List.take_of_length_le (by omega), List.append_cancel_left_eq]
      exact ⟨fun heq => ⟨fun hlost => absurd hlost (by omega), heq⟩, fun heq => heq.2⟩
    · rw [if_neg hkept, append_eq_iff (Nat.zero_le _) hlen, List.take_eq_nil_iff]
      refine and_congr_left fun _ => ⟨fun hgone _ => ?_, fun hgone => .inl ?_⟩
      · rcases hgone with h0 | hnil
        · omega
        · exact absurd hnil h
      · have hall := hgone (by omega)
        omega
  | stray text =>
    rw [Press.raw, Press.meant, result_insert, result_insert, List.flatten_append,
      List.take_nil, List.flatten_nil, append_eq_iff (Nat.zero_le _) hlen, List.take_eq_nil_iff,
      Press.Gone, erases_iff]
    refine and_congr_left fun _ => ⟨fun hgone => ?_, fun hgone => .inl (by omega)⟩
    rcases hgone with h0 | rfl
    · omega
    · exact Nat.zero_le _
  | erase =>
    rw [Press.raw, Press.meant, result_erase, result_erase, Press.Gone, true_and]

section Suffix

variable {P : κ → List κ → Prop}

/-- What holds of every key and the keys after it. -/
theorem forall_suffix_cons_iff (k : κ) (ks : List κ) :
    (∀ k' rest, k' :: rest <:+ k :: ks → P k' rest) ↔
      P k ks ∧ ∀ k' rest, k' :: rest <:+ ks → P k' rest := by
  constructor
  · intro h
    exact ⟨h k ks List.suffix_rfl, fun k' rest h' =>
      h k' rest (List.suffix_cons_iff.mpr (.inr h'))⟩
  · rintro ⟨hk, hrest⟩ k' rest h
    rcases List.suffix_cons_iff.mp h with heq | h
    · obtain ⟨rfl, rfl⟩ := List.cons_eq_cons.mp heq
      exact hk
    · exact hrest k' rest h

instance decidableForallSuffix [∀ k rest, Decidable (P k rest)] :
    ∀ ks : List κ, Decidable (∀ k rest, k :: rest <:+ ks → P k rest)
  | [] => isTrue fun k rest h => absurd (List.suffix_nil.mp h) (List.cons_ne_nil k rest)
  | k :: ks =>
    have := decidableForallSuffix ks
    decidable_of_iff _ (forall_suffix_cons_iff k ks).symm

end Suffix

/-- **When two readings leave the same line.** -/
theorem result_raw_eq_iff (press : κ → Press α) (ks : List κ) :
    result ((ks.map press).map Press.raw) = (result ((ks.map press).map Press.meant)).flatten ↔
      ∀ k rest, k :: rest <:+ ks → (press k).Gone (rest.map press) := by
  induction ks with
  | nil =>
    refine ⟨fun _ k rest h => ?_, fun _ => rfl⟩
    exact absurd (List.suffix_nil.mp h) (List.cons_ne_nil k rest)
  | cons k ks ih => rw [List.map_cons, result_raw_eq_cons, ih, forall_suffix_cons_iff]

/-- Keys whose readings do not differ leave the same line. -/
theorem result_raw_of_single {ps : List (Press α)} (h : ∀ p ∈ ps, p.Single) :
    result (ps.map Press.raw) = (result (ps.map Press.meant)).flatten := by
  induction ps with
  | nil => rfl
  | cons p ps ih =>
    obtain ⟨hp, hps⟩ := List.forall_mem_cons.mp h
    refine (result_raw_eq_cons p ps).mpr ⟨?_, ih hps⟩
    cases p with
    | piece text hne =>
      have hlen : text.length = 1 := hp
      rw [Press.Gone, hlen, erases_iff, erases_iff, overrun_raw_eq hps]
      exact id
    | stray text =>
      have hnil : text = [] := hp
      rw [Press.Gone, hnil, erases_iff]
      exact Nat.zero_le _
    | erase => exact trivial

end LineEdit
