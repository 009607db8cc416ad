/-!
# Computations with a state and errors

A computation that changes a state and may stop with an error.  The changes made before
an error stay, so a statement about effects holds whether or not the computation
succeeds.
-/

namespace Stateful

/-- Changes a state of type `S` and answers, or stops with an error. -/
def Action (S E A : Type) : Type :=
  S -> Except E A × S

variable {S E A B : Type}

namespace Action

def lift (x : Except E A) : Action S E A :=
  fun s => (x, s)

def fail (e : E) : Action S E A :=
  lift (.error e)

def read : Action S E S :=
  fun s => (.ok s, s)

def modify (f : S -> S) : Action S E Unit :=
  fun s => (.ok (), f s)

def attempt (m : Action S E A) : Action S E (Except E A) :=
  fun s => (.ok (m s).1, (m s).2)

def andThen (m : Action S E A) (f : A -> Action S E B) : Action S E B :=
  fun s =>
    match m s with
    | (.ok a, mid) => f a mid
    | (.error e, mid) => (.error e, mid)

end Action

instance : Monad (Action S E) where
  pure a := fun s => (.ok a, s)
  bind := Action.andThen

/-!
## Results
-/

variable {s s' : S}

theorem pure_eq_ok_iff
    {a b : A} :
    (pure a : Action S E A) s = (.ok b, s') <-> a = b ∧ s = s' := by
  constructor
  · intro h
    cases h
    exact ⟨rfl, rfl⟩
  · rintro ⟨rfl, rfl⟩
    rfl

theorem bind_eq_ok_iff
    {m : Action S E A} {f : A -> Action S E B} {b : B} :
    (m >>= f) s = (.ok b, s') <-> exists a mid, m s = (.ok a, mid) ∧ f a mid = (.ok b, s') := by
  show Action.andThen m f s = _ <-> _
  unfold Action.andThen
  constructor
  · intro h
    split at h
    · rename_i a mid hm
      exact ⟨a, mid, hm, h⟩
    · cases h
  · rintro ⟨a, mid, hm, hf⟩
    rw [hm]
    exact hf

theorem lift_eq_ok_iff
    {x : Except E A} {a : A} :
    Action.lift x s = (.ok a, s') <-> x = .ok a ∧ s = s' := by
  unfold Action.lift
  rw [Prod.mk.injEq]

theorem read_eq_ok_iff
    {a : S} :
    (Action.read : Action S E S) s = (.ok a, s') <-> s = a ∧ s = s' := by
  unfold Action.read
  rw [Prod.mk.injEq, Except.ok.injEq]

theorem attempt_eq_ok_iff
    {m : Action S E A} {a : Except E A} :
    m.attempt s = (.ok a, s') <-> m s = (a, s') := by
  unfold Action.attempt
  rw [Prod.mk.injEq, Except.ok.injEq]
  constructor
  · rintro ⟨rfl, rfl⟩
    rfl
  · intro h
    rw [h]
    exact ⟨rfl, rfl⟩

/-!
## Effects
-/

/-- Whatever the outcome, the state after stands in the relation to the one before. -/
def Stays (R : S -> S -> Prop) (m : Action S E A) : Prop :=
  forall s, R s (m s).2

section Stays

variable {R : S -> S -> Prop} {m : Action S E A}

theorem stays_pure
    (hrefl : forall s, R s s) (a : A) :
    Stays R (pure a : Action S E A) :=
  hrefl

theorem stays_lift
    (hrefl : forall s, R s s) (x : Except E A) :
    Stays R (Action.lift x : Action S E A) :=
  hrefl

theorem stays_fail
    (hrefl : forall s, R s s) (e : E) :
    Stays R (Action.fail e : Action S E A) :=
  hrefl

theorem stays_read
    (hrefl : forall s, R s s) :
    Stays R (Action.read : Action S E S) :=
  hrefl

theorem Stays.attempt
    (h : Stays R m) :
    Stays R m.attempt :=
  h

theorem Stays.mono
    {R' : S -> S -> Prop} (h : Stays R m) (himp : forall a b, R a b -> R' a b) :
    Stays R' m :=
  fun s => himp _ _ (h s)

theorem Stays.bind
    (htrans : forall a b c, R a b -> R b c -> R a c) {f : A -> Action S E B} (h : Stays R m)
    (hf : forall a, Stays R (f a)) :
    Stays R (m >>= f) := by
  intro s
  show R s (Action.andThen m f s).2
  have hm := h s
  unfold Action.andThen
  split
  · rename_i a mid heq
    rw [heq] at hm
    exact htrans _ _ _ hm (hf a mid)
  · rename_i e mid heq
    rw [heq] at hm
    exact hm

end Stays

end Stateful
