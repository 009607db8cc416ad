import Mathlib.Data.List.Basic

/-!
# Replays

A replay folds a list of events into a state with a step function.  The states
a replay passes through are those after each initial segment of the list.  The
rules below turn a statement about one step into one about all of them.
-/

namespace Replay

variable {S E : Type*}

/-- The state after every initial segment of the event list satisfies `I`. -/
def AllReached (step : S -> E -> S) (s : S) (events : List E) (I : S -> Prop) : Prop :=
  forall pre post, events = pre ++ post -> I (pre.foldl step s)

def AllSteps (step : S -> E -> S) (s : S) (events : List E) (C : S -> E -> Prop) : Prop :=
  forall pre e post, events = pre ++ e :: post -> C (pre.foldl step s) e

variable {step : S -> E -> S} {events : List E} {I : S -> Prop} {s : S}

theorem allReached_cons
    {e : E} :
    AllReached step s (e :: events) I <-> I s ∧ AllReached step (step s e) events I := by
  constructor
  · intro h
    refine ⟨h [] (e :: events) rfl, ?_⟩
    intro pre post heq
    exact h (e :: pre) post (by simp [heq])
  · rintro ⟨hs, h⟩ pre post heq
    cases pre with
    | nil => exact hs
    | cons a pre =>
        rw [List.cons_append, List.cons.injEq] at heq
        rcases heq with ⟨rfl, heq⟩
        exact h pre post heq

variable {C : S -> E -> Prop}

theorem allSteps_cons
    {e : E} :
    AllSteps step s (e :: events) C <-> C s e ∧ AllSteps step (step s e) events C := by
  constructor
  · intro h
    refine ⟨h [] e events rfl, ?_⟩
    intro pre a post heq
    exact h (e :: pre) a post (by simp [heq])
  · rintro ⟨hs, h⟩ pre a post heq
    cases pre with
    | nil =>
        rw [List.nil_append, List.cons.injEq] at heq
        rcases heq with ⟨rfl, -⟩
        exact hs
    | cons a' pre =>
        rw [List.cons_append, List.cons.injEq] at heq
        rcases heq with ⟨rfl, heq⟩
        exact h pre a post heq

theorem allSteps_nil :
    AllSteps step s [] C := by
  intro pre e post heq
  simp at heq

theorem allSteps_concat
    (events : List E) (last : E) :
    forall s, AllSteps step s (events ++ [last]) C <->
      AllSteps step s events C ∧ C (events.foldl step s) last := by
  induction events with
  | nil =>
      intro s
      rw [List.nil_append, allSteps_cons]
      constructor
      · rintro ⟨hlast, -⟩
        exact ⟨allSteps_nil, hlast⟩
      · rintro ⟨-, hlast⟩
        exact ⟨hlast, allSteps_nil⟩
  | cons e rest ih =>
      intro s
      rw [List.cons_append, allSteps_cons, ih, allSteps_cons, and_assoc]
      rfl

/-- The exactness rule: when a step keeps the invariant exactly under `C`, the
invariant holds along the whole replay exactly when it holds at the start and
every step meets `C`. -/
theorem allReached_iff
    (hstep : forall s e, I s -> (I (step s e) <-> C s e)) (events : List E) :
    forall s, AllReached step s events I <-> I s ∧ AllSteps step s events C := by
  induction events with
  | nil =>
      intro s
      constructor
      · intro h
        exact ⟨h [] [] rfl, allSteps_nil⟩
      · rintro ⟨hs, -⟩ pre post heq
        have hpre : pre = [] := by
          simpa using (List.append_eq_nil_iff.mp heq.symm).1
        rw [hpre]
        exact hs
  | cons e rest ih =>
      intro s
      rw [allReached_cons, allSteps_cons, ih]
      constructor
      · rintro ⟨hs, hnext, hrest⟩
        exact ⟨hs, (hstep s e hs).mp hnext, hrest⟩
      · rintro ⟨hs, hcond, hrest⟩
        exact ⟨hs, (hstep s e hs).mpr hcond, hrest⟩

theorem AllReached.final
    (h : AllReached step s events I) :
    I (events.foldl step s) :=
  h events [] (by simp)

/-!
## One per key

A scan that takes an eligible position unless it took an earlier one of the same key takes
the first eligible position of each key.
-/

theorem taken_iff_first_eligible
    {K : Type*} {taken eligible : Nat -> Prop} {key : Nat -> K}
    (h : forall i, taken i <-> eligible i ∧ forall j, j < i -> key j = key i -> ¬ taken j) :
    forall i, taken i <-> eligible i ∧ forall j, j < i -> key j = key i -> ¬ eligible j := by
  -- an eligible position before a taken one is itself behind a taken one
  have hblocked : forall i, eligible i -> exists j, j ≤ i ∧ key j = key i ∧ taken j := by
    intro i hi
    by_cases htaken : taken i
    · exact ⟨i, Nat.le_refl i, rfl, htaken⟩
    · rw [h i, not_and] at htaken
      have hsome := htaken hi
      push Not at hsome
      rcases hsome with ⟨j, hj, hkey, hjtaken⟩
      exact ⟨j, Nat.le_of_lt hj, hkey, hjtaken⟩
  intro i
  constructor
  · intro htaken
    rcases (h i).mp htaken with ⟨hi, hnone⟩
    refine ⟨hi, ?_⟩
    intro j hj hkey heligible
    rcases hblocked j heligible with ⟨m, hm, hsame, hmtaken⟩
    exact hnone m (Nat.lt_of_le_of_lt hm hj) (hsame.trans hkey) hmtaken
  · rintro ⟨hi, hnone⟩
    apply (h i).mpr
    refine ⟨hi, ?_⟩
    intro j hj hkey htaken
    exact hnone j hj hkey ((h j).mp htaken).1

end Replay
