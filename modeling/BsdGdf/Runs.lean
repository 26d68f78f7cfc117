/-
Runs of a deterministic machine, and what holds along them.

A machine is a function `step : σ → ι → σ × ο`: an input takes a state to the
next state and an output.  `final` and `trace` run it over a list of inputs;
the trace keeps the states around every step, so that a history (what was
written so far, what is open) is a function of the trace.

* `Always Q` — `Q` holds at the start and after every step;
* `Along P` — every step is taken from a state, and with a past, that `P`
  allows;
* `always_of_step` — the induction rule: what every allowed step keeps holds
  always;
* `always_iff_along` — the same rule for exact conditions: if an allowed step
  keeps `Good` and any other step breaks it, then `Good` holds always iff
  every step was allowed;
* `exists_exit` — the rule for termination, with a rank;
* `done_of_rounds` — the rule for termination under every fair schedule;
* `refines_run` — the rule for refinement: two machines with the same outputs;
* `Local` — a machine whose every input reads and writes one component of the
  state; `Local.final_get` and `Local.io_filter` say that a component sees the
  run in which only its own inputs are left.
-/
import Mathlib.Logic.Function.Basic
import Mathlib.Data.List.Infix

namespace Runs

variable {σ ι ο : Type*}

/-- One step of a run, with the states around it. -/
structure Event (σ ι ο : Type*) where
  before : σ
  input : ι
  output : ο
  after : σ

/-- The event of taking input `i` in state `s`. -/
def event (step : σ → ι → σ × ο) (s : σ) (i : ι) : Event σ ι ο :=
  ⟨s, i, (step s i).2, (step s i).1⟩

/-- The state after a list of inputs. -/
def final (step : σ → ι → σ × ο) : σ → List ι → σ
  | s, [] => s
  | s, i :: is => final step (step s i).1 is

/-- The steps taken on a list of inputs, in order. -/
def trace (step : σ → ι → σ × ο) : σ → List ι → List (Event σ ι ο)
  | _, [] => []
  | s, i :: is => event step s i :: trace step (step s i).1 is

variable {step : σ → ι → σ × ο}

@[simp] theorem final_nil (s : σ) : final step s [] = s := rfl

@[simp] theorem trace_nil (s : σ) : trace step s [] = [] := rfl

theorem final_append (s : σ) (is js : List ι) :
    final step s (is ++ js) = final step (final step s is) js := by
  induction is generalizing s with
  | nil => rfl
  | cons i is ih => exact ih _

theorem trace_append (s : σ) (is js : List ι) :
    trace step s (is ++ js) = trace step s is ++ trace step (final step s is) js := by
  induction is generalizing s with
  | nil => rfl
  | cons i is ih =>
    rw [List.cons_append, trace, ih]
    rfl

theorem final_concat (s : σ) (is : List ι) (i : ι) :
    final step s (is ++ [i]) = (step (final step s is) i).1 := by
  rw [final_append]
  rfl

theorem trace_concat (s : σ) (is : List ι) (i : ι) :
    trace step s (is ++ [i]) = trace step s is ++ [event step (final step s is) i] := by
  rw [trace_append]
  rfl

/-! ### What holds along a run -/

/-- `Q` holds of the past and the state, at the start and after every step. -/
def Always (step : σ → ι → σ × ο) (s : σ) (Q : List (Event σ ι ο) → σ → Prop)
    (is : List ι) : Prop :=
  ∀ pre, pre <+: is → Q (trace step s pre) (final step s pre)

/-- Every step takes an input that `P` allows, given the past and the state
before it. -/
def Along (step : σ → ι → σ × ο) (s : σ) (P : List (Event σ ι ο) → σ → ι → Prop)
    (is : List ι) : Prop :=
  ∀ pre i, pre ++ [i] <+: is → P (trace step s pre) (final step s pre) i

variable {s : σ} {P K : List (Event σ ι ο) → σ → ι → Prop}
  {Q Good I : List (Event σ ι ο) → σ → Prop}

theorem always_nil : Always step s Q [] ↔ Q [] s := by
  constructor
  · intro h
    exact h [] (List.prefix_refl _)
  · intro h pre hpre
    rw [List.prefix_nil.mp hpre]
    exact h

theorem always_concat (is : List ι) (i : ι) :
    Always step s Q (is ++ [i]) ↔
      Always step s Q is ∧ Q (trace step s (is ++ [i])) (final step s (is ++ [i])) := by
  constructor
  · intro h
    exact ⟨fun pre hpre => h pre (hpre.trans (List.prefix_append _ _)),
      h _ (List.prefix_refl _)⟩
  · rintro ⟨h, hlast⟩ pre hpre
    rcases List.prefix_concat_iff.mp hpre with rfl | hpre
    · exact hlast
    · exact h pre hpre

theorem Always.last {is : List ι} (h : Always step s Q is) :
    Q (trace step s is) (final step s is) :=
  h is (List.prefix_refl _)

theorem along_nil : Along step s P [] := by
  intro pre i h
  exact absurd (List.prefix_nil.mp h) (by simp)

theorem along_concat (is : List ι) (i : ι) :
    Along step s P (is ++ [i]) ↔
      Along step s P is ∧ P (trace step s is) (final step s is) i := by
  constructor
  · intro h
    exact ⟨fun pre j hj => h pre j (hj.trans (List.prefix_append _ _)),
      h is i (List.prefix_refl _)⟩
  · rintro ⟨h, hlast⟩ pre j hj
    rcases List.prefix_concat_iff.mp hj with hj | hj
    · obtain ⟨rfl, hij⟩ := List.append_inj' hj rfl
      obtain rfl := List.singleton_inj.mp hij
      exact hlast
    · exact h pre j hj

theorem along_cons (i : ι) (is : List ι) :
    Along step s P (i :: is) ↔
      P [] s i ∧ Along step (step s i).1 (fun es => P (event step s i :: es)) is := by
  constructor
  · intro h
    exact ⟨h [] i (List.prefix_append [i] is), fun pre j hj =>
      h (i :: pre) j (List.cons_prefix_cons.mpr ⟨rfl, hj⟩)⟩
  · rintro ⟨h0, h⟩ pre j hj
    cases pre with
    | nil =>
      obtain ⟨rfl, -⟩ := List.cons_prefix_cons.mp hj
      exact h0
    | cons i' pre =>
      obtain ⟨rfl, htail⟩ := List.cons_prefix_cons.mp hj
      exact h pre j htail

theorem always_cons (i : ι) (is : List ι) :
    Always step s Q (i :: is) ↔
      Q [] s ∧ Always step (step s i).1 (fun es => Q (event step s i :: es)) is := by
  constructor
  · intro h
    exact ⟨h [] List.nil_prefix, fun pre hpre =>
      h (i :: pre) (List.cons_prefix_cons.mpr ⟨rfl, hpre⟩)⟩
  · rintro ⟨h0, h⟩ pre hpre
    cases pre with
    | nil => exact h0
    | cons i' pre =>
      obtain ⟨rfl, htail⟩ := List.cons_prefix_cons.mp hpre
      exact h pre htail

/-- What holds along a given run can be evaluated, step by step. -/
instance Along.decidable : ∀ (P : List (Event σ ι ο) → σ → ι → Prop)
    [∀ es t i, Decidable (P es t i)] (s : σ) (is : List ι), Decidable (Along step s P is)
  | _, _, _, [] => isTrue along_nil
  | P, _, s, i :: is =>
    have := Along.decidable (fun es => P (event step s i :: es)) (step s i).1 is
    decidable_of_iff _ (along_cons i is).symm

instance Always.decidable : ∀ (Q : List (Event σ ι ο) → σ → Prop)
    [∀ es t, Decidable (Q es t)] (s : σ) (is : List ι), Decidable (Always step s Q is)
  | Q, _, s, [] => decidable_of_iff (Q [] s) always_nil.symm
  | Q, _, s, i :: is =>
    have := Always.decidable (fun es => Q (event step s i :: es)) (step s i).1 is
    decidable_of_iff _ (always_cons i is).symm

theorem Along.of_forall {is : List ι} (h : ∀ i ∈ is, ∀ es t, P es t i) :
    Along step s P is := by
  intro pre i hi
  exact h i (hi.subset (List.mem_append_right _ (List.mem_singleton_self i))) _ _

/-- What the inputs alone decide. -/
theorem along_input_iff {p : ι → Prop} {is : List ι} :
    Along step s (fun _ _ i => p i) is ↔ ∀ i ∈ is, p i := by
  constructor
  · intro h i hi
    obtain ⟨pre, post, rfl⟩ := List.append_of_mem hi
    refine h pre i ⟨post, ?_⟩
    rw [List.append_assoc]
    rfl
  · intro h
    exact Along.of_forall fun i hi _ _ => h i hi

theorem Along.and {P' : List (Event σ ι ο) → σ → ι → Prop} {is : List ι}
    (h : Along step s P is) (h' : Along step s P' is) :
    Along step s (fun es t i => P es t i ∧ P' es t i) is :=
  fun pre i hi => ⟨h pre i hi, h' pre i hi⟩

/-- The induction rule of runs. -/
theorem always_of_step (h0 : Q [] s)
    (hstep : ∀ es t i, Q es t → P es t i →
      Q (es ++ [event step t i]) (step t i).1) :
    ∀ {is : List ι}, Along step s P is → Always step s Q is := by
  intro is
  induction is using List.reverseRecOn with
  | nil =>
    intro _
    exact always_nil.mpr h0
  | append_singleton is i ih =>
    intro hP
    obtain ⟨hP, hlast⟩ := (along_concat is i).mp hP
    refine (always_concat is i).mpr ⟨ih hP, ?_⟩
    rw [trace_concat, final_concat]
    exact hstep _ _ _ (ih hP).last hlast

/-- **The rule for exact conditions.**  Under an environment that keeps `K`, a
step allowed by `P` keeps the invariant and `Good`, and a step that `P` forbids
breaks `Good`; then `Good` holds always iff every step was allowed. -/
theorem always_iff_along (h0 : I [] s) (hgood : Good [] s)
    (keeps : ∀ es t i, I es t → K es t i → P es t i →
      I (es ++ [event step t i]) (step t i).1 ∧
      Good (es ++ [event step t i]) (step t i).1)
    (breaks : ∀ es t i, I es t → K es t i → ¬ P es t i →
      ¬ Good (es ++ [event step t i]) (step t i).1) :
    ∀ {is : List ι}, Along step s K is →
      (Always step s Good is ↔ Along step s P is) := by
  intro is hK
  -- `I` holds as long as every step was allowed, so both sides can be compared step by step
  suffices H : Along step s K is →
      (Along step s P is → I (trace step s is) (final step s is)) ∧
      (Always step s Good is ↔ Along step s P is) from (H hK).2
  induction is using List.reverseRecOn with
  | nil => exact fun _ => ⟨fun _ => h0, ⟨fun _ => along_nil, fun _ => always_nil.mpr hgood⟩⟩
  | append_singleton is i ih =>
    intro hK
    obtain ⟨hK, hKi⟩ := (along_concat is i).mp hK
    obtain ⟨hinv, hiff⟩ := ih hK hK
    rw [along_concat, always_concat, trace_concat, final_concat]
    refine ⟨fun ⟨hP, hPi⟩ => (keeps _ _ _ (hinv hP) hKi hPi).1, ?_, ?_⟩
    · rintro ⟨hg, hlast⟩
      have hP := hiff.mp hg
      -- the run was good so far, so the invariant holds and the last step cannot break it
      refine ⟨hP, ?_⟩
      by_contra hPi
      exact breaks _ _ _ (hinv hP) hKi hPi hlast
    · rintro ⟨hP, hPi⟩
      exact ⟨hiff.mpr hP, (keeps _ _ _ (hinv hP) hKi hPi).2⟩

/-- **The rule for termination.**  Every allowed step either exits, or keeps `I` and
lowers the rank if it is a counted one, and never raises it; then a run with more
counted inputs than the rank exits before it has taken more of them than that. -/
theorem exists_exit {I : σ → Prop} {A exit : σ → ι → Prop} (counted : ι → Bool) (rank : σ → ℕ)
    (hstep : ∀ t i, I t → A t i →
      exit t i ∨ I (step t i).1 ∧ rank (step t i).1 + (counted i).toNat ≤ rank t) :
    ∀ {s : σ} {is : List ι}, I s → Along step s (fun _ => A) is →
      rank s < is.countP counted →
      ∃ pre i, pre ++ [i] <+: is ∧ pre.countP counted ≤ rank s ∧
        Always step s (fun _ => I) pre ∧ exit (final step s pre) i := by
  intro s is
  induction is generalizing s with
  | nil =>
    intro _ _ hlt
    exact absurd hlt (Nat.not_lt_zero _)
  | cons i is ih =>
    intro hI hA hlt
    obtain ⟨hAi, hA⟩ := (along_cons i is).mp hA
    rcases hstep s i hI hAi with hexit | ⟨hI', hrank⟩
    · exact ⟨[], i, List.prefix_append [i] is, Nat.zero_le _, always_nil.mpr hI, hexit⟩
    · have hcount : (i :: is).countP counted = is.countP counted + (counted i).toNat := by
        rw [List.countP_cons]
        cases counted i <;> rfl
      obtain ⟨pre, j, hpre, hle, halways, hexit⟩ := ih hI' hA (by omega)
      refine ⟨i :: pre, j, List.cons_prefix_cons.mpr ⟨rfl, hpre⟩, ?_,
        (always_cons i pre).mpr ⟨hI, halways⟩, hexit⟩
      have hcount' : (i :: pre).countP counted = pre.countP counted + (counted i).toNat := by
        rw [List.countP_cons]
        cases counted i <;> rfl
      omega

section Rounds

variable {κ : Type*} {who : ι → κ} {rank : σ → ℕ} {I Done : σ → Prop}
  (hkeep : ∀ t i, I t → I (step t i).1)
  (hlower : ∀ t i, I t → (step t i).1 = t ∨ rank (step t i).1 < rank t)

include hkeep hlower

theorem rank_final_le {s : σ} (hI : I s) (is : List ι) :
    I (final step s is) ∧ rank (final step s is) ≤ rank s := by
  induction is generalizing s with
  | nil => exact ⟨hI, le_rfl⟩
  | cons i is ih =>
    obtain ⟨hI', hle⟩ := ih (hkeep s i hI)
    refine ⟨hI', hle.trans ?_⟩
    rcases hlower s i hI with hsame | hlt
    · rw [hsame]
    · exact hlt.le

/-- Someone who can lower the rank, and gets a turn. -/
theorem rank_final_lt {s : σ} (hI : I s) {k : κ}
    (hcan : ∀ i, who i = k → rank (step s i).1 < rank s) {is : List ι}
    (hturn : ∃ i ∈ is, who i = k) : rank (final step s is) < rank s := by
  induction is generalizing s with
  | nil =>
    obtain ⟨i, hi, -⟩ := hturn
    exact absurd hi List.not_mem_nil
  | cons i is ih =>
    have hle := (rank_final_le hkeep hlower (hkeep s i hI) is).2
    rcases hlower s i hI with hsame | hlt
    · -- it was someone else's turn, and nothing has changed
      have hother : who i ≠ k := by
        intro hk
        have hlt := hcan i hk
        rw [hsame] at hlt
        exact absurd hlt (lt_irrefl _)
      obtain ⟨j, hj, hk⟩ := hturn
      rcases List.mem_cons.mp hj with rfl | hj
      · exact absurd hk hother
      · have hlt := ih hI hcan ⟨j, hj, hk⟩
        show rank (final step (step s i).1 is) < rank s
        rwa [hsame]
    · exact lt_of_le_of_lt hle hlt

/-- **The rule for fair schedules.**  As long as not all is done someone can lower the
rank, whoever else goes first; then rounds in which everyone gets a turn, as many as the
rank, do it all. -/
theorem done_of_rounds (hzero : ∀ t, I t → rank t = 0 → Done t)
    (hsome : ∀ t, I t → ¬ Done t → ∃ k, ∀ i, who i = k → rank (step t i).1 < rank t)
    (hstable : ∀ t i, I t → Done t → (step t i).1 = t) {s : σ} {rounds : List (List ι)}
    (hI : I s) (hfair : ∀ is ∈ rounds, ∀ k, ∃ i ∈ is, who i = k)
    (henough : rank s ≤ rounds.length) : Done (final step s rounds.flatten) := by
  have hstay : ∀ (is : List ι) {s : σ}, I s → Done s → final step s is = s := by
    intro is
    induction is with
    | nil => exact fun _ _ => rfl
    | cons i is ih =>
      intro s hI hdone
      have hsame := hstable s i hI hdone
      show final step (step s i).1 is = s
      rw [hsame]
      exact ih hI hdone
  induction rounds generalizing s with
  | nil => exact hzero s hI (Nat.le_zero.mp henough)
  | cons is rounds ih =>
    obtain ⟨hround, hrest⟩ := List.forall_mem_cons.mp hfair
    by_cases hdone : Done s
    · rw [hstay _ hI hdone]
      exact hdone
    · obtain ⟨k, hcan⟩ := hsome s hI hdone
      have hlt := rank_final_lt hkeep hlower hI hcan (hround k)
      rw [List.length_cons] at henough
      rw [List.flatten_cons, final_append]
      exact ih (rank_final_le hkeep hlower hI is).1 hrest (by omega)

end Rounds

/-! ### What goes in and what comes out -/

/-- What went in and what came out, without the states. -/
def io (es : List (Event σ ι ο)) : List (ι × ο) := es.map fun e => (e.input, e.output)

theorem io_trace_cons (s : σ) (i : ι) (is : List ι) :
    io (trace step s (i :: is)) = (i, (step s i).2) :: io (trace step (step s i).1 is) :=
  rfl

theorem io_trace_concat (s : σ) (is : List ι) (i : ι) :
    io (trace step s (is ++ [i])) =
      io (trace step s is) ++ [(i, (step (final step s is) i).2)] := by
  rw [trace_concat, io, List.map_append]
  rfl

/-- The inputs of a run are read off its trace. -/
theorem inputs_trace (s : σ) (is : List ι) : (io (trace step s is)).map Prod.fst = is := by
  induction is generalizing s with
  | nil => rfl
  | cons i is ih => rw [io_trace_cons, List.map_cons, ih]

/-- **The rule for refinement.**  If `abs` takes every allowed step from a state with `I`
to a step of the other machine with the same output, no run can tell the two apart. -/
theorem refines_run {τ : Type*} {astep : τ → ι → τ × ο} {abs : σ → τ} {I : σ → Prop}
    (hkeep : ∀ es t i, I t → P es t i → I (step t i).1)
    (hstep : ∀ es t i, I t → P es t i → astep (abs t) i = (abs (step t i).1, (step t i).2))
    (hI : I s) : ∀ {is : List ι}, Along step s P is →
      io (trace astep (abs s) is) = io (trace step s is) ∧
        final astep (abs s) is = abs (final step s is) := by
  intro is
  induction is using List.reverseRecOn with
  | nil => exact fun _ => ⟨rfl, rfl⟩
  | append_singleton is i ih =>
    intro hP
    obtain ⟨hP, hlast⟩ := (along_concat is i).mp hP
    obtain ⟨hio, hfinal⟩ := ih hP
    have hinv : Always step s (fun _ => I) is := always_of_step hI hkeep hP
    have hlast' := hstep _ _ _ hinv.last hlast
    rw [io_trace_concat, io_trace_concat, final_concat, final_concat, hfinal, hlast', hio]
    exact ⟨rfl, rfl⟩

/-! ### Machines whose inputs touch one component -/

/-- Every input names at most one component; it acts on that one as `lstep` does
and leaves the others alone. -/
structure Local {κ ν : Type*} (step : σ → ι → σ × ο) (get : σ → κ → ν)
    (key : ι → Option κ) (lstep : ν → ι → ν × ο) : Prop where
  own : ∀ s i k, key i = some k → get (step s i).1 k = (lstep (get s k) i).1
  out : ∀ s i k, key i = some k → (step s i).2 = (lstep (get s k) i).2
  frame : ∀ s i k, key i ≠ some k → get (step s i).1 k = get s k

section Local

variable {κ ν : Type*} [DecidableEq κ] {get : σ → κ → ν} {key : ι → Option κ}
  {lstep : ν → ι → ν × ο}

/-- The inputs that name component `k`. -/
def naming (key : ι → Option κ) (k : κ) (is : List ι) : List ι :=
  is.filter fun i => decide (key i = some k)

theorem naming_cons_of_eq {k : κ} {i : ι} (h : key i = some k) (is : List ι) :
    naming key k (i :: is) = i :: naming key k is :=
  List.filter_cons_of_pos (by simpa using h)

theorem naming_cons_of_ne {k : κ} {i : ι} (h : key i ≠ some k) (is : List ι) :
    naming key k (i :: is) = naming key k is :=
  List.filter_cons_of_neg (by simpa using h)

@[simp] theorem naming_naming (k : κ) (is : List ι) :
    naming key k (naming key k is) = naming key k is := by
  simp [naming, List.filter_filter]

/-- A component ends a run as it ends the run of its own inputs. -/
theorem Local.final_get (hl : Local step get key lstep) (k : κ) :
    ∀ (s : σ) (is : List ι),
      get (final step s is) k = final lstep (get s k) (naming key k is) := by
  intro s is
  induction is generalizing s with
  | nil => rfl
  | cons i is ih =>
    rw [final, ih]
    by_cases hk : key i = some k
    · rw [naming_cons_of_eq hk, final, hl.own s i k hk]
    · rw [naming_cons_of_ne hk, hl.frame s i k hk]

/-- The outputs on a component are those of the run of its own inputs. -/
theorem Local.io_filter (hl : Local step get key lstep) (k : κ) :
    ∀ (s : σ) (is : List ι),
      (io (trace step s is)).filter (fun p => decide (key p.1 = some k)) =
        io (trace lstep (get s k) (naming key k is)) := by
  intro s is
  induction is generalizing s with
  | nil => rfl
  | cons i is ih =>
    rw [io_trace_cons]
    by_cases hk : key i = some k
    · rw [naming_cons_of_eq hk, List.filter_cons_of_pos (by simpa using hk), io_trace_cons, ih,
        hl.own s i k hk, hl.out s i k hk]
    · rw [naming_cons_of_ne hk, List.filter_cons_of_neg (by simpa using hk), ih,
        hl.frame s i k hk]

/-- Removing the other inputs does not change how a component ends. -/
theorem Local.final_naming (hl : Local step get key lstep) (k : κ) (s : σ) (is : List ι) :
    get (final step s is) k = get (final step s (naming key k is)) k := by
  rw [hl.final_get k s is, hl.final_get k s (naming key k is), naming_naming]

/-- Removing the other inputs does not change the outputs on a component. -/
theorem Local.io_naming (hl : Local step get key lstep) (k : κ) (s : σ) (is : List ι) :
    (io (trace step s is)).filter (fun p => decide (key p.1 = some k)) =
      io (trace step s (naming key k is)) := by
  rw [hl.io_filter k s is]
  have hown := hl.io_filter k s (naming key k is)
  rw [naming_naming] at hown
  rw [← hown]
  -- every input that is left names `k`, so the filter keeps all of them
  refine List.filter_eq_self.mpr fun p hp => ?_
  have hmem : p.1 ∈ (io (trace step s (naming key k is))).map Prod.fst :=
    List.mem_map.mpr ⟨p, hp, rfl⟩
  rw [inputs_trace] at hmem
  exact (List.mem_filter.mp hmem).2

end Local

end Runs
