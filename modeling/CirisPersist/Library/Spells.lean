import Mathlib.Order.Lattice
import Mathlib.Order.Defs.LinearOrder
import Mathlib.Order.Interval.Set.Basic
import Mathlib.Data.List.Pairwise
import Mathlib.Tactic.Order
import Mathlib.Tactic.SplitIfs

/-!
# Spells of a condition

A replay takes dated steps, one after the other, and a condition holds of some of
the states it passes.  A scan of the replay writes down the spells during which
the condition held, as half-open intervals; a spell that has not ended has no end.

The module proves that the scan answers for every instant: an instant lies in one of
the spells exactly when the condition holds of the state that the steps dated up to
that instant lead to.  Spells may be cut by other intervals, and the instants that are
left are those of the spells and of no cut.
-/

namespace Spells

variable {S E T : Type*}

/-!
## Intervals
-/

def holdsAt [LinearOrder T] (t : T) (interval : T × Option T) : Bool :=
  decide (interval.1 ≤ t) && interval.2.all fun e => decide (t < e)

theorem holdsAt_iff
    [LinearOrder T] (t : T) (interval : T × Option T) :
    holdsAt t interval = true <-> interval.1 ≤ t ∧ forall e, interval.2 = some e -> t < e := by
  simp [holdsAt, Option.all_eq_true]

def pieces [LinearOrder T] (cut interval : T × Option T) : List (T × Option T) :=
  let before := if interval.1 < cut.1 then
      [(interval.1, some (match interval.2 with
        | some e => if e ≤ cut.1 then e else cut.1
        | none => cut.1))]
    else
      []
  let after := match cut.2 with
    | some cutEnd =>
        if interval.2.all (fun e => decide (cutEnd < e)) then
          [(max interval.1 cutEnd, interval.2)]
        else
          []
    | none => []
  before ++ after

def minus [LinearOrder T] (intervals : List (T × Option T)) (cut : T × Option T) :
    List (T × Option T) :=
  (intervals.flatMap (pieces cut)).filter fun i => i.2.all fun e => decide (i.1 < e)

section Cuts

variable [LinearOrder T]

-- neither end of either interval need lie after its start
theorem any_pieces_iff
    (cut interval : T × Option T) (t : T) :
    (pieces cut interval).any (holdsAt t) = true <->
      holdsAt t interval = true ∧ ¬ holdsAt t cut = true := by
  rcases cut with ⟨cutStart, cutEnd⟩
  rcases interval with ⟨start, ending⟩
  cases cutEnd with
  | none =>
      cases ending with
      | none =>
          simp only [pieces, holdsAt_iff]
          split_ifs
          · simp [holdsAt_iff]
          · simp
            order
      | some e =>
          simp only [pieces, holdsAt_iff]
          split_ifs <;> simp [holdsAt_iff] <;> grind
  | some cutEnd =>
      cases ending with
      | none =>
          simp only [pieces, holdsAt_iff]
          split_ifs <;> simp [holdsAt_iff] <;> grind
      | some e =>
          simp only [pieces, holdsAt_iff]
          split_ifs <;> simp [holdsAt_iff] <;> grind

theorem any_minus_iff
    (intervals : List (T × Option T)) (cut : T × Option T) (t : T) :
    (minus intervals cut).any (holdsAt t) = true <->
      intervals.any (holdsAt t) = true ∧ ¬ holdsAt t cut = true := by
  have hdrop : (minus intervals cut).any (holdsAt t) =
      (intervals.flatMap (pieces cut)).any (holdsAt t) := by
    rw [minus, List.any_filter]
    congr 1
    funext i
    rw [Bool.and_eq_right_iff_imp, holdsAt_iff, Option.all_eq_true]
    rintro ⟨hstart, hend⟩ e he
    exact decide_eq_true (lt_of_le_of_lt hstart (hend e he))
  rw [hdrop, List.any_flatMap, List.any_eq_true, List.any_eq_true]
  simp only [any_pieces_iff]
  constructor
  · rintro ⟨i, hi, hin, hout⟩
    exact ⟨⟨i, hi, hin⟩, hout⟩
  · rintro ⟨⟨i, hi, hin⟩, hout⟩
    exact ⟨i, hi, hin, hout⟩

theorem any_foldl_minus_iff
    (cuts : List (T × Option T)) (t : T) (intervals : List (T × Option T)) :
    (cuts.foldl minus intervals).any (holdsAt t) = true <->
      intervals.any (holdsAt t) = true ∧ cuts.any (holdsAt t) = false := by
  induction cuts generalizing intervals with
  | nil => simp
  | cons cut rest ih =>
      rw [List.foldl_cons, ih, any_minus_iff, List.any_cons, Bool.or_eq_false_iff, and_assoc,
        Bool.not_eq_true]

theorem foldl_minus_nil
    (cuts : List (T × Option T)) :
    cuts.foldl minus [] = [] := by
  induction cuts with
  | nil => rfl
  | cons cut rest ih => exact ih

end Cuts

/-!
## The scan
-/

/-- The state reached, the start of the spell that is open, and the spells that ended. -/
structure Scan (S T : Type*) where
  state : S
  since : Option T
  closed : List (T × Option T)

section Definitions

variable (step : S -> E -> S) (date : E -> T) (holds : S -> Bool)

def scanStep (acc : Scan S T) (e : E) : Scan S T :=
  let s := step acc.state e
  match acc.since, holds s with
  | none, true => { acc with state := s, since := some (date e) }
  | some start, false =>
      { state := s
        since := none
        closed := acc.closed ++ [(start, some (date e))] }
  | _, _ => { acc with state := s }

def Scan.spells (acc : Scan S T) : List (T × Option T) :=
  acc.closed ++ (acc.since.map fun start => (start, none)).toList

def Scan.Tracks (acc : Scan S T) : Prop :=
  acc.since.isSome = holds acc.state

/-- Every spell that ended was over by the instant, and an open one had begun. -/
structure Scan.Settled [LinearOrder T] (t : T) (acc : Scan S T) : Prop where
  tracks : acc.Tracks holds
  begun : forall start, acc.since = some start -> start ≤ t
  past : forall i, i ∈ acc.closed -> holdsAt t i = false

end Definitions

variable {step : S -> E -> S} {date : E -> T} {holds : S -> Bool}

/-!
## One step
-/

theorem state_scanStep
    (acc : Scan S T) (e : E) :
    (scanStep step date holds acc e).state = step acc.state e := by
  cases hsince : acc.since <;> cases hholds : holds (step acc.state e) <;>
    simp [scanStep, hsince, hholds]

variable {acc : Scan S T}

theorem tracks_scanStep
    (e : E) :
    (scanStep step date holds acc e).Tracks holds := by
  unfold Scan.Tracks
  rw [state_scanStep]
  cases hsince : acc.since <;> cases hholds : holds (step acc.state e) <;>
    simp [scanStep, hsince, hholds]

variable {e : E}

theorem scanStep_of_same
    (htracks : acc.Tracks holds) (hsame : holds (step acc.state e) = holds acc.state) :
    scanStep step date holds acc e = { acc with state := step acc.state e } := by
  unfold Scan.Tracks at htracks
  cases hsince : acc.since with
  | none =>
      rw [hsince] at htracks
      simp [scanStep, hsince, hsame, ← htracks]
  | some start =>
      rw [hsince] at htracks
      simp [scanStep, hsince, hsame, ← htracks]

variable (events : List E)

theorem state_foldl_scanStep
    (acc : Scan S T) :
    (events.foldl (scanStep step date holds) acc).state = events.foldl step acc.state :=
  (List.foldl_hom Scan.state fun acc e => (state_scanStep acc e).symm).symm

variable [LinearOrder T]

theorem any_spells_iff
    (acc : Scan S T) (t : T) :
    acc.spells.any (holdsAt t) = true <->
      acc.closed.any (holdsAt t) = true ∨ exists start, acc.since = some start ∧ start ≤ t := by
  unfold Scan.spells
  cases acc.since with
  | none => simp
  | some start => simp [holdsAt]

variable {t : T}

theorem settled_scanStep
    (hdate : date e ≤ t) (h : acc.Settled holds t) :
    (scanStep step date holds acc e).Settled holds t := by
  refine ⟨tracks_scanStep e, ?_, ?_⟩
  · intro start hstart
    cases hsince : acc.since with
    | none =>
        cases hholds : holds (step acc.state e) with
        | false => simp [scanStep, hsince, hholds] at hstart
        | true =>
            simp only [scanStep, hsince, hholds, Option.some.injEq] at hstart
            rw [← hstart]
            exact hdate
    | some since =>
        cases hholds : holds (step acc.state e) with
        | false => simp [scanStep, hsince, hholds] at hstart
        | true =>
            simp only [scanStep, hsince, hholds, Option.some.injEq] at hstart
            exact h.begun start (by rw [hsince, hstart])
  · intro i hi
    have hends : i ∈ acc.closed ∨ i.2 = some (date e) := by
      cases hsince : acc.since <;> cases hholds : holds (step acc.state e) <;>
        simp only [scanStep, hsince, hholds, List.mem_append, List.mem_singleton] at hi
      · exact Or.inl hi
      · exact Or.inl hi
      · exact hi.imp_right fun heq => by rw [heq]
      · exact Or.inl hi
    rcases hends with hold | hend
    · exact h.past i hold
    · rw [Bool.eq_false_iff, ne_eq, holdsAt_iff]
      intro hin
      exact absurd (hin.2 (date e) hend) (not_lt.mpr hdate)

theorem spells_scanStep_of_later
    (hdate : t < date e) :
    (scanStep step date holds acc e).spells.any (holdsAt t) = acc.spells.any (holdsAt t) := by
  rw [Bool.eq_iff_iff, any_spells_iff, any_spells_iff]
  cases hsince : acc.since <;> cases hholds : holds (step acc.state e) <;>
    simp [scanStep, hsince, hholds, hdate, holdsAt]

/-!
## A whole replay
-/

theorem settled_foldl_scanStep
    (acc : Scan S T) (hdates : forall e, e ∈ events -> date e ≤ t) (h : acc.Settled holds t) :
    (events.foldl (scanStep step date holds) acc).Settled holds t :=
  List.foldlRecOn events _ h fun _ hacc e he => settled_scanStep (hdates e he) hacc

theorem spells_foldl_scanStep_of_later
    (acc : Scan S T) (hdates : forall e, e ∈ events -> t < date e) :
    (events.foldl (scanStep step date holds) acc).spells.any (holdsAt t) =
      acc.spells.any (holdsAt t) := by
  refine List.foldlRecOn (motive := fun later : Scan S T =>
    later.spells.any (holdsAt t) = acc.spells.any (holdsAt t)) events _ rfl ?_
  intro later hlater e he
  rw [spells_scanStep_of_later (hdates e he), hlater]

theorem any_spells_of_settled
    (h : acc.Settled holds t) :
    acc.spells.any (holdsAt t) = holds acc.state := by
  have hclosed : acc.closed.any (holdsAt t) = false := by
    rw [List.any_eq_false]
    intro i hi
    rw [h.past i hi]
    exact Bool.false_ne_true
  rw [Bool.eq_iff_iff, any_spells_iff, hclosed, ← h.tracks, Option.isSome_iff_exists]
  constructor
  · rintro (hfalse | ⟨start, hstart, _⟩)
    · cases hfalse
    · exact ⟨start, hstart⟩
  · rintro ⟨start, hstart⟩
    exact Or.inr ⟨start, hstart, h.begun start hstart⟩

theorem any_spells_foldl_append
    (step : S -> E -> S) {early late : List E} (h : acc.Settled holds t)
    (hearly : forall e, e ∈ early -> date e ≤ t) (hlate : forall e, e ∈ late -> t < date e) :
    ((early ++ late).foldl (scanStep step date holds) acc).spells.any (holdsAt t) =
      holds (early.foldl step acc.state) := by
  rw [List.foldl_append, spells_foldl_scanStep_of_later late _ hlate,
    any_spells_of_settled (settled_foldl_scanStep early acc hearly h), state_foldl_scanStep]

/-!
## Windows

Half-open windows that keep apart from one another cover no stretch longer than one of
them.
-/

def Covers (windows : List (T × T)) (a b : T) : Prop :=
  forall t, t ∈ Set.Ico a b -> exists w, w ∈ windows ∧ t ∈ Set.Ico w.1 w.2

def Separate (w v : T × T) : Prop :=
  forall t, t ∈ Set.Ico w.1 w.2 -> t ∉ Set.Ico v.1 v.2

def Apart (windows : List (T × T)) : Prop :=
  forall w v, w ∈ windows -> v ∈ windows -> v.1 ≠ w.2

theorem within_one_of_covers
    {windows : List (T × T)} (hseparate : windows.Pairwise Separate) (hapart : Apart windows)
    {a b : T} (hab : a < b) (hcovers : Covers windows a b) :
    exists w, w ∈ windows ∧ w.1 ≤ a ∧ b ≤ w.2 := by
  have hsymm : Std.Symm (Separate (T := T)) := ⟨fun _ _ h t hv hw => h t hw hv⟩
  have heq : forall w v t, w ∈ windows -> v ∈ windows -> t ∈ Set.Ico w.1 w.2 ->
      t ∈ Set.Ico v.1 v.2 -> w = v := by
    intro w v t hw hv htw htv
    by_contra hne
    exact hseparate.forall hw hv hne t htw htv
  rcases hcovers a ⟨le_refl a, hab⟩ with ⟨w, hw, haw⟩
  refine ⟨w, hw, haw.1, ?_⟩
  by_contra hshort
  -- the end of the window lies in the stretch, so a second window holds it, and that one
  -- opened before the first closed
  rcases hcovers w.2 ⟨le_of_lt haw.2, lt_of_not_ge hshort⟩ with ⟨v, hv, hend⟩
  have hopens : v.1 < w.2 := lt_of_le_of_ne hend.1 (hapart w v hw hv)
  have hboth : max w.1 v.1 < w.2 := max_lt (lt_of_le_of_lt haw.1 haw.2) hopens
  have hsame := heq w v (max w.1 v.1) hw hv ⟨le_max_left _ _, hboth⟩
    ⟨le_max_right _ _, lt_trans hboth hend.2⟩
  rw [hsame] at hend
  exact lt_irrefl _ hend.2

end Spells
