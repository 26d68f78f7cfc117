/-
Handles that are opened and closed.

A ledger is the list of openings and closings in the order they happened.
`held es k` says that `k` is open after `es`.  A handle number may be opened
again after it was closed, so "closed exactly once" is said of each opening, up
to the next opening of the same number (`ClosedOnce`).

`closedOnce_iff`: where handles are only opened while closed and only closed
while open, every opening is closed exactly once iff nothing is open at the end.
`closedOnce_slot_iff` is the case of an owner that keeps its handle in one slot,
overwrites it and closes what stands there in the end.
-/
import Mathlib.Logic.Function.Basic
import Mathlib.Data.List.Infix
import Mathlib.Data.Nat.Notation

namespace Ledger

/-- An opening or a closing of a handle. -/
inductive Entry (κ : Type*)
  | opened (k : κ)
  | closed (k : κ)
  deriving DecidableEq

variable {κ : Type*} [DecidableEq κ]

/-- The handles that are open after one more entry. -/
def post (h : κ → Bool) : Entry κ → κ → Bool
  | .opened k => Function.update h k true
  | .closed k => Function.update h k false

/-- The handles that are open after a ledger that starts from `h`. -/
def heldFrom (h : κ → Bool) (es : List (Entry κ)) : κ → Bool := es.foldl post h

/-- The handles that are open after a ledger. -/
def held (es : List (Entry κ)) : κ → Bool := heldFrom (fun _ => false) es

@[simp] theorem held_nil (k : κ) : held ([] : List (Entry κ)) k = false := rfl

theorem held_append (es fs : List (Entry κ)) : held (es ++ fs) = heldFrom (held es) fs :=
  List.foldl_append

@[simp] theorem heldFrom_nil (h : κ → Bool) : heldFrom h [] = h := rfl

@[simp] theorem heldFrom_cons (h : κ → Bool) (e : Entry κ) (es : List (Entry κ)) :
    heldFrom h (e :: es) = heldFrom (post h e) es := rfl

@[simp] theorem post_opened (h : κ → Bool) (k l : κ) :
    post h (.opened k) l = if l = k then true else h l := Function.update_apply _ _ _ _

@[simp] theorem post_closed (h : κ → Bool) (k l : κ) :
    post h (.closed k) l = if l = k then false else h l := Function.update_apply _ _ _ _

/-- A handle that is closed at once was never open. -/
theorem heldFrom_opened_closed {h : κ → Bool} {k : κ} (hk : h k = false) :
    heldFrom h [.opened k, .closed k] = h := by
  funext l
  by_cases hl : l = k
  · rw [hl]
    simp [hk]
  · simp [hl]

/-- Handles are opened only while they are closed, as a kernel hands them out. -/
def Fresh : (κ → Bool) → List (Entry κ) → Prop
  | _, [] => True
  | h, .opened k :: es => h k = false ∧ Fresh (post h (.opened k)) es
  | h, .closed k :: es => Fresh (post h (.closed k)) es

/-- Handles are closed only while they are open. -/
def Owned : (κ → Bool) → List (Entry κ) → Prop
  | _, [] => True
  | h, .opened k :: es => Owned (post h (.opened k)) es
  | h, .closed k :: es => h k = true ∧ Owned (post h (.closed k)) es

theorem fresh_append (h : κ → Bool) (es fs : List (Entry κ)) :
    Fresh h (es ++ fs) ↔ Fresh h es ∧ Fresh (heldFrom h es) fs := by
  induction es generalizing h with
  | nil => simp [Fresh]
  | cons e es ih => cases e <;> simp [Fresh, ih, and_assoc]

theorem owned_append (h : κ → Bool) (es fs : List (Entry κ)) :
    Owned h (es ++ fs) ↔ Owned h es ∧ Owned (heldFrom h es) fs := by
  induction es generalizing h with
  | nil => simp [Owned]
  | cons e es ih => cases e <;> simp [Owned, ih, and_assoc]

/-! ### Closed exactly once -/

/-- How often `k` is closed before it is opened again. -/
def closings (k : κ) (es : List (Entry κ)) : ℕ :=
  (es.takeWhile fun e => decide (e ≠ .opened k)).count (.closed k)

/-- Every opening is followed by exactly one closing of the same handle before
the handle is opened again. -/
def ClosedOnce (es : List (Entry κ)) : Prop :=
  ∀ before k after, es = before ++ .opened k :: after → closings k after = 1

@[simp] theorem closings_nil (k : κ) : closings k [] = 0 := rfl

@[simp] theorem closings_opened (k : κ) (es : List (Entry κ)) :
    closings k (.opened k :: es) = 0 := by
  simp [closings]

@[simp] theorem closings_closed (k : κ) (es : List (Entry κ)) :
    closings k (.closed k :: es) = closings k es + 1 := by
  simp [closings]

theorem closings_opened_ne {k l : κ} (hl : l ≠ k) (es : List (Entry κ)) :
    closings k (.opened l :: es) = closings k es := by
  simp [closings, hl]

theorem closings_closed_ne {k l : κ} (hl : l ≠ k) (es : List (Entry κ)) :
    closings k (.closed l :: es) = closings k es := by
  simp [closings, hl]

/-- A closed handle is not closed again before it is opened. -/
theorem closings_of_closed {k : κ} : ∀ {h : κ → Bool} {es : List (Entry κ)},
    Owned h es → h k = false → closings k es = 0 := by
  intro h es
  induction es generalizing h with
  | nil => intro _ _; rfl
  | cons e es ih =>
    intro ho hk
    cases e with
    | opened l =>
      -- opened again, so what follows is no closing of the old handle
      by_cases hl : l = k
      · rw [hl, closings_opened]
      · rw [closings_opened_ne hl]
        exact ih ho (by rw [post_opened, if_neg (Ne.symm hl), hk])
    | closed l =>
      have hl : l ≠ k := by
        rintro rfl
        rw [ho.1] at hk
        exact absurd hk (by simp)
      rw [closings_closed_ne hl]
      exact ih ho.2 (by rw [post_closed, if_neg (Ne.symm hl), hk])

/-- An open handle is closed once before it is opened again, unless it stays open
to the end. -/
theorem closings_of_open {k : κ} : ∀ {h : κ → Bool} {es : List (Entry κ)},
    Fresh h es → Owned h es → h k = true →
      closings k es = 1 ∨ (closings k es = 0 ∧ heldFrom h es k = true) := by
  intro h es
  induction es generalizing h with
  | nil => exact fun _ _ hk => .inr ⟨rfl, hk⟩
  | cons e es ih =>
    intro hf ho hk
    cases e with
    | opened l =>
      have hl : l ≠ k := by
        rintro rfl
        rw [hf.1] at hk
        exact absurd hk (by simp)
      rw [closings_opened_ne hl]
      exact ih hf.2 ho (by rw [post_opened, if_neg (Ne.symm hl), hk])
    | closed l =>
      by_cases hl : l = k
      · -- this is the one closing: from here on the handle is closed
        subst hl
        left
        rw [closings_closed, closings_of_closed ho.2 (by simp)]
      · rw [closings_closed_ne hl]
        exact ih hf ho.2 (by rw [post_closed, if_neg (Ne.symm hl), hk])

/-- A handle that is open at the end was open from the start or has an opening
that is never closed. -/
theorem exists_unclosed {k : κ} : ∀ {h : κ → Bool} {es : List (Entry κ)},
    Fresh h es → Owned h es → heldFrom h es k = true →
      (h k = true ∧ closings k es = 0) ∨
      ∃ before after, es = before ++ .opened k :: after ∧ closings k after = 0 := by
  intro h es
  induction es generalizing h with
  | nil => exact fun _ _ hk => .inl ⟨hk, rfl⟩
  | cons e es ih =>
    intro hf ho hend
    have hrest : Fresh (post h e) es ∧ Owned (post h e) es := by
      cases e with
      | opened l => exact ⟨hf.2, ho⟩
      | closed l => exact ⟨hf, ho.2⟩
    rcases ih hrest.1 hrest.2 hend with ⟨hk, hcount⟩ | ⟨before, after, rfl, hcount⟩
    · cases e with
      | opened l =>
        by_cases hl : l = k
        · subst hl
          exact .inr ⟨[], es, rfl, hcount⟩
        · rw [post_opened, if_neg (Ne.symm hl)] at hk
          exact .inl ⟨hk, by rw [closings_opened_ne hl, hcount]⟩
      | closed l =>
        by_cases hl : l = k
        · rw [hl, post_closed, if_pos rfl] at hk
          exact absurd hk (by simp)
        · rw [post_closed, if_neg (Ne.symm hl)] at hk
          exact .inl ⟨hk, by rw [closings_closed_ne hl, hcount]⟩
    · exact .inr ⟨e :: before, after, rfl, hcount⟩

/-- **Closed exactly once** means nothing left open. -/
theorem closedOnce_iff {es : List (Entry κ)} (hf : Fresh (fun _ => false) es)
    (ho : Owned (fun _ => false) es) : ClosedOnce es ↔ ∀ k, held es k = false := by
  constructor
  · intro honce k
    by_contra hk
    rcases exists_unclosed hf ho (by simpa [held] using hk) with ⟨h0, -⟩ |
      ⟨before, after, rfl, hcount⟩
    · exact absurd h0 (by simp)
    · rw [honce _ _ _ rfl] at hcount
      exact absurd hcount (by simp)
  · rintro hend before k after rfl
    obtain ⟨-, hf'⟩ := (fresh_append _ _ _).mp hf
    obtain ⟨-, ho'⟩ := (owned_append _ _ _).mp ho
    rcases closings_of_open hf'.2 ho' (by simp : post _ (.opened k) k = true) with
      h1 | ⟨-, hopen⟩
    · exact h1
    · have := hend k
      rw [held_append, heldFrom_cons] at this
      exact absurd (hopen.symm.trans this) (by simp)

/-- A ledger whose first part closes only what is open goes right exactly if its last
part leaves nothing open and closes only what is open. -/
theorem closedOnce_append_iff {es fs : List (Entry κ)}
    (hf : Fresh (fun _ => false) (es ++ fs)) (ho : Owned (fun _ => false) es) :
    (ClosedOnce (es ++ fs) ∧ Owned (fun _ => false) (es ++ fs)) ↔
      (∀ k, heldFrom (held es) fs k = false) ∧ Owned (held es) fs := by
  have hsplit := owned_append (fun _ => false) es fs
  rw [← held_append]
  constructor
  · rintro ⟨honce, howned⟩
    exact ⟨(closedOnce_iff hf howned).mp honce, (hsplit.mp howned).2⟩
  · rintro ⟨hend, hlast⟩
    have howned := hsplit.mpr ⟨ho, hlast⟩
    exact ⟨(closedOnce_iff hf howned).mpr hend, howned⟩

/-- A last closing leaves nothing open, and closes what is open, exactly if it closes
the one open handle. -/
theorem closed_last_iff (h : κ → Bool) (k₀ : κ) :
    ((∀ k, heldFrom h [.closed k₀] k = false) ∧ Owned h [.closed k₀]) ↔
      ∀ k, h k = true ↔ k = k₀ := by
  constructor
  · rintro ⟨hend, hopen, -⟩ k
    constructor
    · intro hk
      by_contra hne
      have hstill := hend k
      rw [heldFrom_cons, heldFrom_nil, post_closed, if_neg hne, hk] at hstill
      exact absurd hstill (by simp)
    · rintro rfl
      exact hopen
  · intro hiff
    refine ⟨fun k => ?_, (hiff k₀).mpr rfl, trivial⟩
    rw [heldFrom_cons, heldFrom_nil, post_closed]
    by_cases hk : k = k₀
    · rw [if_pos hk]
    · rw [if_neg hk, ← Bool.not_eq_true, hiff k]
      exact hk

/-! ### A slot that keeps the last handle only -/

/-- The openings among acquisitions, of which some fail. -/
def openings (os : List (Option κ)) : List (Entry κ) := os.filterMap (Option.map .opened)

/-- What stands in a slot that every acquisition overwrites, with nothing if it fails. -/
def slot (os : List (Option κ)) : Option κ := os.getLast?.join

/-- What is closed with the slot. -/
def release : Option κ → List (Entry κ)
  | some k => [.closed k]
  | none => []

theorem owned_openings (h : κ → Bool) (os : List (Option κ)) : Owned h (openings os) := by
  induction os generalizing h with
  | nil => exact trivial
  | cons o os ih =>
    cases o with
    | none => exact ih h
    | some k => exact ih (post h (.opened k))

theorem heldFrom_openings (h : κ → Bool) (os : List (Option κ)) (k : κ) :
    heldFrom h (openings os) k = true ↔ h k = true ∨ some k ∈ os := by
  induction os generalizing h with
  | nil => simp [openings]
  | cons o os ih =>
    cases o with
    | none =>
      show heldFrom h (openings os) k = true ↔ _
      rw [ih]
      simp
    | some l =>
      show heldFrom (post h (.opened l)) (openings os) k = true ↔ _
      rw [ih, post_opened, List.mem_cons, Option.some_inj]
      by_cases hk : k = l <;> simp [hk]

omit [DecidableEq κ] in
theorem openings_concat (os : List (Option κ)) (o : Option κ) :
    openings (os ++ [o]) = openings os ++ (o.map .opened).toList := by
  cases o <;> simp [openings]

/-- **A slot is released in the end**: every handle that was acquired is closed once,
and nothing else, exactly if no acquisition but the last one succeeded. -/
theorem closedOnce_slot_iff {os : List (Option κ)} (hf : Fresh (fun _ => false) (openings os)) :
    (ClosedOnce (openings os ++ release (slot os)) ∧
      Owned (fun _ => false) (openings os ++ release (slot os))) ↔
      ∀ o ∈ os.dropLast, o = none := by
  have hfresh : Fresh (fun _ => false) (openings os ++ release (slot os)) := by
    refine (fresh_append _ _ _).mpr ⟨hf, ?_⟩
    cases slot os <;> exact trivial
  have hheld : ∀ k, held (openings os) k = true ↔ some k ∈ os := by
    intro k
    rw [held, heldFrom_openings]
    simp
  rw [closedOnce_append_iff hfresh (owned_openings _ _)]
  cases os using List.reverseRecOn with
  | nil => simp [slot, release, openings, Owned]
  | append_singleton os o =>
    have hslot : slot (os ++ [o]) = o := by
      rw [slot, List.getLast?_concat]
      rfl
    rw [hslot, List.dropLast_concat]
    cases o with
    | none =>
      -- nothing is released, so nothing may be open
      constructor
      · rintro ⟨hend, -⟩ o ho
        cases o with
        | none => rfl
        | some k =>
          have hopen := (hheld k).mpr (List.mem_append_left _ ho)
          exact absurd ((hend k).symm.trans hopen) (by simp)
      · intro hnone
        refine ⟨fun k => ?_, trivial⟩
        show held (openings (os ++ [none])) k = false
        rw [← Bool.not_eq_true, hheld]
        intro hk
        rcases List.mem_append.mp hk with hk | hk
        · exact absurd (hnone _ hk) (by simp)
        · exact absurd (List.mem_singleton.mp hk) (by simp)
    | some k₀ =>
      rw [release, closed_last_iff]
      simp only [hheld, List.mem_append, List.mem_singleton, Option.some_inj]
      constructor
      · intro hiff o ho
        cases o with
        | none => rfl
        | some k =>
          obtain rfl := (hiff k).mp (.inl ho)
          -- the last handle was open already
          rw [openings_concat, fresh_append] at hf
          have hopen : held (openings os) k = true :=
            (heldFrom_openings _ _ _).mpr (.inr ho)
          exact absurd (hf.2.1.symm.trans hopen) (by simp)
      · intro hnone k
        constructor
        · rintro (hk | hk)
          · exact absurd (hnone _ hk) (by simp)
          · exact hk
        · exact .inr

end Ledger
