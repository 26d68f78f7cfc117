/-
Decimal numerals as byte strings.

A numeral is read from its first digit on, so a prefix of it has a value too, and leading
zeros do not count.

* `value_numeral` — writing a number and reading it;
* `read_append` — reading a numeral in front of something else;
* `lt_iff_value_lt`, `append_lt_append_iff` — numerals of one length compare as strings as
  they do as numbers.
-/
import Mathlib.Data.Nat.Notation
import Mathlib.Algebra.Order.Ring.Nat
import Mathlib.Algebra.Order.Group.Nat

namespace Numerals

/-- A byte between '0' and '9'. -/
def isDigit (b : UInt8) : Bool := 0x30 ≤ b && b ≤ 0x39

/-- The value of a digit. -/
def digitValue (b : UInt8) : ℕ := b.toNat - 0x30

/-- The value of more digits behind a number. -/
def valueFrom (n : ℕ) (ds : List UInt8) : ℕ := ds.foldl (fun n b => 10 * n + digitValue b) n

/-- The value of a numeral. -/
def value (ds : List UInt8) : ℕ := valueFrom 0 ds

/-- The shortest numeral of a number. -/
def numeral (n : ℕ) : List UInt8 := (Nat.toDigits 10 n).map fun c => UInt8.ofNat c.toNat

/-- The numeral at the start of a string, and what follows. -/
def read (l : List UInt8) : ℕ × List UInt8 := (value (l.takeWhile isDigit), l.dropWhile isDigit)

variable {ds es : List UInt8} {b : UInt8}

/-! ### Digits -/

theorem isDigit_iff : isDigit b = true ↔ 48 ≤ b.toNat ∧ b.toNat ≤ 57 := by
  rw [isDigit, Bool.and_eq_true, decide_eq_true_iff, decide_eq_true_iff, UInt8.le_iff_toNat_le,
    UInt8.le_iff_toNat_le]
  exact Iff.rfl

/-- The digit that a character of a number stands for. -/
theorem digit_ofChar {c : Char} (h : c.isDigit = true) :
    isDigit (UInt8.ofNat c.toNat) = true ∧
      digitValue (UInt8.ofNat c.toNat) = c.toNat - '0'.toNat := by
  obtain ⟨hge, hle⟩ := Char.isDigit_iff_toNat.mp h
  have hge' : 48 ≤ c.toNat := hge
  have hle' : c.toNat ≤ 57 := hle
  have hnat : (UInt8.ofNat c.toNat).toNat = c.toNat := by
    rw [UInt8.toNat_ofNat']
    omega
  have hzero : '0'.toNat = 48 := rfl
  rw [isDigit_iff, digitValue, hnat, hzero]
  exact ⟨⟨hge', hle'⟩, rfl⟩

theorem isDigit_numeral (n : ℕ) : ∀ b ∈ numeral n, isDigit b = true := by
  intro b hb
  obtain ⟨c, hc, rfl⟩ := List.mem_map.mp hb
  exact (digit_ofChar (Nat.isDigit_of_mem_toDigits (by decide) (by decide) hc)).1

/-! ### Values -/

theorem valueFrom_cons (n : ℕ) (b : UInt8) (ds : List UInt8) :
    valueFrom n (b :: ds) = valueFrom (10 * n + digitValue b) ds := by
  simp only [valueFrom, List.foldl_cons]

theorem valueFrom_eq (n : ℕ) (ds : List UInt8) :
    valueFrom n ds = n * 10 ^ ds.length + value ds := by
  induction ds generalizing n with
  | nil => simp [valueFrom, value]
  | cons b ds ih =>
    have hfirst : value (b :: ds) = digitValue b * 10 ^ ds.length + value ds := by
      rw [value, valueFrom_cons, ih, Nat.mul_zero, Nat.zero_add]
    rw [valueFrom_cons, ih, hfirst, List.length_cons, Nat.pow_succ, Nat.add_mul, Nat.add_assoc,
      Nat.mul_comm 10 n, Nat.mul_assoc, Nat.mul_comm 10]

theorem value_cons (b : UInt8) (ds : List UInt8) :
    value (b :: ds) = digitValue b * 10 ^ ds.length + value ds := by
  rw [value, valueFrom_cons, valueFrom_eq, Nat.mul_zero, Nat.zero_add]

/-- A number is the value of its numeral. -/
theorem value_numeral (n : ℕ) : value (numeral n) = n := by
  have hchars : ∀ (cs : List Char) (k : ℕ), (∀ c ∈ cs, c.isDigit = true) →
      valueFrom k (cs.map fun c => UInt8.ofNat c.toNat) = Nat.ofDigitChars 10 cs k := by
    intro cs
    induction cs with
    | nil =>
      intro k _
      rw [Nat.ofDigitChars_nil]
      rfl
    | cons c cs ih =>
      intro k hcs
      obtain ⟨hc, hrest⟩ := List.forall_mem_cons.mp hcs
      rw [List.map_cons, valueFrom_cons, (digit_ofChar hc).2, ih _ hrest, Nat.ofDigitChars_cons]
  rw [value, numeral, hchars, Nat.ofDigitChars_ten_toDigits]
  intro c hc
  exact Nat.isDigit_of_mem_toDigits (by decide) (by decide) hc

/-- Leading zeros do not count. -/
theorem value_zeros (k : ℕ) (ds : List UInt8) : value (List.replicate k 48 ++ ds) = value ds := by
  induction k with
  | zero => rfl
  | succ k ih =>
    rw [List.replicate_succ, List.cons_append, value_cons, ih]
    show 0 * _ + _ = _
    rw [Nat.zero_mul, Nat.zero_add]

theorem length_numeral_le_iff {n k : ℕ} (hk : 0 < k) : (numeral n).length ≤ k ↔ n < 10 ^ k := by
  rw [numeral, List.length_map]
  exact Nat.length_toDigits_le_iff (by decide) hk

theorem value_lt (hds : ∀ b ∈ ds, isDigit b = true) : value ds < 10 ^ ds.length := by
  induction ds with
  | nil => exact Nat.one_pos
  | cons b ds ih =>
    obtain ⟨hb, hrest⟩ := List.forall_mem_cons.mp hds
    have hle : digitValue b ≤ 9 := by
      have := (isDigit_iff.mp hb).2
      rw [digitValue]
      omega
    have hmul : digitValue b * 10 ^ ds.length ≤ 9 * 10 ^ ds.length :=
      Nat.mul_le_mul_right _ hle
    have hlt := ih hrest
    rw [value_cons, List.length_cons, Nat.pow_succ]
    omega

/-! ### Reading -/

/-- A numeral in front of something that does not go on with a digit. -/
theorem read_append (hds : ∀ b ∈ ds, isDigit b = true) {rest : List UInt8}
    (hrest : ∀ b ∈ rest.head?, isDigit b = false) : read (ds ++ rest) = (value ds, rest) := by
  have htake : rest.takeWhile isDigit = [] ∧ rest.dropWhile isDigit = rest := by
    rcases rest with _ | ⟨b, rest⟩
    · exact ⟨rfl, rfl⟩
    · have hb : isDigit b = false := hrest b rfl
      simp [hb]
  rw [read, List.takeWhile_append_of_pos hds, List.dropWhile_append_of_pos hds, htake.1, htake.2,
    List.append_nil]

/-! ### Order -/

/-- **Numerals of one length compare as numbers.** -/
theorem lt_iff_value_lt (hlen : ds.length = es.length) (hds : ∀ b ∈ ds, isDigit b = true)
    (hes : ∀ b ∈ es, isDigit b = true) : ds < es ↔ value ds < value es := by
  induction ds generalizing es with
  | nil =>
    rw [List.length_eq_zero_iff.mp hlen.symm]
    exact ⟨fun h => absurd h (List.not_lt_nil []), fun h => absurd h (lt_irrefl _)⟩
  | cons a ds ih =>
    rcases es with _ | ⟨b, es⟩
    · exact absurd hlen (Nat.succ_ne_zero _)
    obtain ⟨ha, hds⟩ := List.forall_mem_cons.mp hds
    obtain ⟨hb, hes⟩ := List.forall_mem_cons.mp hes
    have hlen' : ds.length = es.length := Nat.succ.inj hlen
    have hvalue : digitValue a < digitValue b ↔ a < b := by
      rw [isDigit_iff] at ha hb
      rw [UInt8.lt_iff_toNat_lt, digitValue, digitValue]
      omega
    have hsame : digitValue a = digitValue b ↔ a = b := by
      rw [isDigit_iff] at ha hb
      rw [← UInt8.toNat_inj, digitValue, digitValue]
      omega
    have hlt := value_lt hds
    have hlt' := value_lt hes
    rw [List.cons_lt_cons_iff, ih hlen' hds hes, value_cons, value_cons, ← hvalue, ← hsame,
      ← hlen']
    rw [← hlen'] at hlt'
    -- the first digits decide, or the rest does
    constructor
    · rintro (hfirst | ⟨hfirst, hrest⟩)
      · have hmul : (digitValue a + 1) * 10 ^ ds.length ≤ digitValue b * 10 ^ ds.length :=
          Nat.mul_le_mul_right _ hfirst
        rw [Nat.add_mul] at hmul
        omega
      · rw [hfirst]
        omega
    · intro h
      rcases Nat.lt_trichotomy (digitValue a) (digitValue b) with hfirst | hfirst | hfirst
      · exact .inl hfirst
      · rw [hfirst] at h
        exact .inr ⟨hfirst, by omega⟩
      · have hmul : (digitValue b + 1) * 10 ^ ds.length ≤ digitValue a * 10 ^ ds.length :=
          Nat.mul_le_mul_right _ hfirst
        rw [Nat.add_mul] at hmul
        omega

/-- Numerals of one length are equal if their values are. -/
theorem eq_iff_value_eq (hlen : ds.length = es.length) (hds : ∀ b ∈ ds, isDigit b = true)
    (hes : ∀ b ∈ es, isDigit b = true) : ds = es ↔ value ds = value es := by
  refine ⟨fun h => by rw [h], fun h => ?_⟩
  induction ds generalizing es with
  | nil => exact (List.length_eq_zero_iff.mp hlen.symm).symm
  | cons a ds ih =>
    rcases es with _ | ⟨b, es⟩
    · exact absurd hlen (Nat.succ_ne_zero _)
    -- neither is below the other, so neither are the first digits
    have hnot := mt (lt_iff_value_lt hlen hds hes).mp (by omega)
    have hnot' := mt (lt_iff_value_lt hlen.symm hes hds).mp (by omega)
    rw [List.cons_lt_cons_iff, not_or] at hnot hnot'
    have hfirst : a = b := UInt8.le_antisymm (UInt8.not_lt.mp hnot'.1) (UInt8.not_lt.mp hnot.1)
    have hlen' : ds.length = es.length := Nat.succ.inj hlen
    rw [value_cons, value_cons, hfirst, hlen'] at h
    rw [hfirst, ih hlen' (List.forall_mem_cons.mp hds).2 (List.forall_mem_cons.mp hes).2 (by omega)]

/-- Numerals of one length, each with something behind it. -/
theorem append_lt_append_iff (hlen : ds.length = es.length) (hds : ∀ b ∈ ds, isDigit b = true)
    (hes : ∀ b ∈ es, isDigit b = true) (l m : List UInt8) :
    ds ++ l < es ++ m ↔ value ds < value es ∨ value ds = value es ∧ l < m := by
  rw [← lt_iff_value_lt hlen hds hes, ← eq_iff_value_eq hlen hds hes]
  clear hds hes
  induction ds generalizing es with
  | nil =>
    rw [List.length_eq_zero_iff.mp hlen.symm]
    exact ⟨fun h => .inr ⟨rfl, h⟩, fun h => h.elim (fun h => absurd h (List.not_lt_nil []))
      fun h => h.2⟩
  | cons a ds ih =>
    rcases es with _ | ⟨b, es⟩
    · exact absurd hlen (Nat.succ_ne_zero _)
    rw [List.cons_append, List.cons_append, List.cons_lt_cons_iff, List.cons_lt_cons_iff,
      ih (Nat.succ.inj hlen), List.cons.injEq, and_or_left, and_assoc, or_assoc]

end Numerals
