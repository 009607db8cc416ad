import Mathlib.Order.MinMax
import CirisPersist.Library.Checks

/-!
# Answers that expire

A question is judged at an instant.  The judge compares some of its inputs with that
instant, and registers for each the instant at which the comparison comes out
another way.  The answer is then good until the earliest registered instant.

The rules below say which judgements keep their answers until then.  They relate
two judges, which may differ in what the answer does not depend on.
-/

namespace Expiring

/-- An answer or a refusal, and the earliest later instant at which it may change. -/
def Judged (T E A : Type) : Type :=
  T -> Except E A × Option T

/-!
## The earlier of two expiries
-/

section Expiry

variable {T : Type} [LinearOrder T]

def earlier : Option T -> Option T -> Option T
  | none, v => v
  | some u, none => some u
  | some u, some v => some (min u v)

def Before (t : T) (expiry : Option T) : Prop :=
  forall b, expiry = some b -> t < b

@[simp]
theorem before_none
    (t : T) :
    Before t none := by
  intro b h
  cases h

variable {t : T}

@[simp]
theorem before_some_iff
    {b : T} :
    Before t (some b) <-> t < b := by
  constructor
  · intro h
    exact h b rfl
  · intro h b' heq
    cases heq
    exact h

theorem before_earlier_iff
    {u v : Option T} :
    Before t (earlier u v) <-> Before t u ∧ Before t v := by
  cases u with
  | none => simp [earlier]
  | some u =>
      cases v with
      | none => simp [earlier]
      | some v => simp [earlier]

/-!
## The latest of several expiries

Of several interchangeable supports any one is enough, so together they last as
long as the one that lasts longest.
-/

def latestFrom : Option T -> List (Option T) -> Option T
  | best, [] => best
  | _, none :: _ => none
  | best, some t :: rest => latestFrom (some (best.elim t fun b => max b t)) rest

def latest (expiries : List (Option T)) : Option T :=
  latestFrom none expiries

variable {expiries : List (Option T)}

theorem before_latestFrom
    {best : Option T} (hbest : Before t best) (h : forall x, x ∈ expiries -> Before t x) :
    Before t (latestFrom best expiries) := by
  induction expiries generalizing best with
  | nil => exact hbest
  | cons x rest ih =>
      cases x with
      | none => exact before_none t
      | some s =>
          have hs : t < s := before_some_iff.mp (h (some s) List.mem_cons_self)
          refine ih ?_ fun y hy => h y (List.mem_cons_of_mem _ hy)
          cases best with
          | none => exact before_some_iff.mpr hs
          | some b => exact before_some_iff.mpr (lt_max_of_lt_right hs)

theorem before_latest
    (h : forall x, x ∈ expiries -> Before t x) :
    Before t (latest expiries) :=
  before_latestFrom (before_none t) h

theorem exists_before_of_before_latestFrom
    {best : Option T} (h : Before t (latestFrom best expiries)) :
    (exists x, x ∈ expiries ∧ Before t x) ∨ Before t best := by
  induction expiries generalizing best with
  | nil => exact Or.inr h
  | cons x rest ih =>
      cases x with
      | none => exact Or.inl ⟨none, List.mem_cons_self, before_none t⟩
      | some s =>
          rcases ih h with ⟨y, hy, hbefore⟩ | hmax
          · exact Or.inl ⟨y, List.mem_cons_of_mem _ hy, hbefore⟩
          · cases best with
            | none => exact Or.inr (before_none t)
            | some b =>
                rcases lt_max_iff.mp (before_some_iff.mp hmax) with hb | hs
                · exact Or.inr (before_some_iff.mpr hb)
                · exact Or.inl ⟨some s, List.mem_cons_self, before_some_iff.mpr hs⟩

theorem exists_before_of_before_latest
    (hne : expiries ≠ []) (h : Before t (latest expiries)) :
    exists x, x ∈ expiries ∧ Before t x := by
  cases expiries with
  | nil => exact absurd rfl hne
  | cons x rest =>
      cases x with
      | none => exact ⟨none, List.mem_cons_self, before_none t⟩
      | some s =>
          have hfrom : Before t (latestFrom (some s) rest) := h
          rcases exists_before_of_before_latestFrom hfrom with ⟨y, hy, hbefore⟩ | hs
          · exact ⟨y, List.mem_cons_of_mem _ hy, hbefore⟩
          · exact ⟨some s, List.mem_cons_self, hs⟩

end Expiry

/-!
## Judging in sequence
-/

namespace Judged

section Ops

variable {T E A B : Type}

def outcome (m : Judged T E A) (now : T) : Except E A :=
  (m now).1

def expiry (m : Judged T E A) (now : T) : Option T :=
  (m now).2

def lift (x : Except E A) : Judged T E A :=
  fun _ => (x, none)

/-- A judgement that reads the instant; what changes with it is for the judgement to
register. -/
def withNow (k : T -> Judged T E A) : Judged T E A :=
  fun now => k now now

def attempt {E' : Type} (m : Judged T E A) : Judged T E' (Except E A) :=
  fun now => (.ok (m now).1, (m now).2)

variable [LinearOrder T]

/-- An input compared with the instant changes its answer at `t`. -/
def bound (t : T) : Judged T E Unit :=
  fun now => (.ok (), if now < t then some t else none)

def andThen (m : Judged T E A) (f : A -> Judged T E B) : Judged T E B :=
  fun now =>
    match m now with
    | (.error e, v) => (.error e, v)
    | (.ok a, v) => ((f a now).1, earlier v (f a now).2)

instance : Monad (Judged T E) where
  pure a := lift (.ok a)
  bind := andThen

def boundAll : List T -> Judged T E Unit
  | [] => pure ()
  | t :: ts => do
      bound t
      boundAll ts

def forEach (f : A -> Judged T E Unit) : List A -> Judged T E Unit
  | [] => pure ()
  | x :: xs => do
      f x
      forEach f xs

end Ops

/-!
## Outcomes
-/

section Outcomes

variable {T E A B : Type}

@[simp]
theorem outcome_lift
    (x : Except E A) (now : T) :
    (lift x : Judged T E A).outcome now = x := rfl

@[simp]
theorem outcome_withNow
    (k : T -> Judged T E A) (now : T) :
    (withNow k).outcome now = (k now).outcome now := rfl

@[simp]
theorem outcome_attempt
    {E' : Type} (m : Judged T E A) (now : T) :
    (attempt m : Judged T E' (Except E A)).outcome now = .ok (m.outcome now) := rfl

variable [LinearOrder T]

theorem outcome_bind
    (m : Judged T E A) (f : A -> Judged T E B) (now : T) :
    (m >>= f).outcome now = (m.outcome now >>= fun a => (f a).outcome now) := by
  change (andThen m f now).1 = ((m now).1 >>= fun a => (f a now).1)
  unfold andThen
  rcases m now with ⟨outcome | a, v⟩
  · rfl
  · rfl

theorem outcome_bind_eq_ok_iff
    {m : Judged T E A} {f : A -> Judged T E B} {now : T} {b : B} :
    (m >>= f).outcome now = .ok b <->
      exists a, m.outcome now = .ok a ∧ (f a).outcome now = .ok b := by
  rw [outcome_bind]
  exact Checks.bind_eq_ok_iff

@[simp]
theorem outcome_boundAll
    (ts : List T) (now : T) :
    (boundAll ts : Judged T E Unit).outcome now = .ok () := by
  induction ts with
  | nil => rfl
  | cons t ts ih =>
      rw [boundAll, outcome_bind]
      exact ih

end Outcomes

/-!
## Judges that agree
-/

/-- When a second judge is asked at `t`, after a first answered at `now` with an expiry.
A sequence is open only where its parts are, and no registered instant has passed. -/
structure Window (T : Type) [LinearOrder T] where
  Open : T -> T -> Option T -> Prop
  le : forall {now t v}, Open now t v -> now ≤ t
  split : forall {now t u v}, Open now t (earlier u v) -> Open now t u ∧ Open now t v
  passes : forall {now t b}, Open now t (some b) -> now < b -> t < b

namespace Window

variable {T : Type} [LinearOrder T]

def untilExpiry : Window T where
  Open now t v := now ≤ t ∧ Before t v
  le h := h.1
  split h :=
    have hboth := before_earlier_iff.mp h.2
    ⟨⟨h.1, hboth.1⟩, ⟨h.1, hboth.2⟩⟩
  passes h _ := before_some_iff.mp h.2

def sameInstant : Window T where
  Open now t _ := t = now
  le h := le_of_eq h.symm
  split h := ⟨h, h⟩
  passes h hb := lt_of_eq_of_lt h hb

end Window

section Keeps

variable {T E A B : Type} [LinearOrder T]

/-- Asked in the window after `now`, the second judge answers as the first did. -/
def Keeps (w : Window T) (now : T) (m m' : Judged T E A) : Prop :=
  forall t, w.Open now t (m.expiry now) -> m'.outcome t = m.outcome now

variable {w : Window T} {now : T}

theorem keeps_lift
    (x : Except E A) :
    Keeps w now (lift x) (lift x) := by
  intro t _
  rfl

theorem keeps_pure
    (a : A) :
    Keeps w now (pure a : Judged T E A) (pure a) :=
  keeps_lift (.ok a)

theorem expiry_bind
    (m : Judged T E A) (f : A -> Judged T E B) (now : T) :
    (m >>= f).expiry now =
      match m now with
      | (.error _, v) => v
      | (.ok a, v) => earlier v ((f a).expiry now) := by
  change (andThen m f now).2 = _
  unfold andThen expiry
  rcases m now with ⟨outcome | a, v⟩
  · rfl
  · rfl

theorem keeps_bind
    {m m' : Judged T E A} {f f' : A -> Judged T E B} (hm : Keeps w now m m')
    (hf : forall a, m.outcome now = .ok a -> Keeps w now (f a) (f' a)) :
    Keeps w now (m >>= f) (m' >>= f') := by
  intro t hopen
  rw [expiry_bind] at hopen
  rw [outcome_bind, outcome_bind]
  have hkeep := hm t
  unfold outcome expiry at hkeep
  unfold outcome at hf ⊢
  revert hopen hkeep hf
  rcases m now with ⟨e | a, v⟩
  · intro _ hopen hkeep
    rw [hkeep hopen]
    rfl
  · intro hf hopen hkeep
    have hboth := w.split hopen
    rw [hkeep hboth.1]
    exact hf a rfl t hboth.2

theorem keeps_attempt
    {E' : Type} {m m' : Judged T E A} (hm : Keeps w now m m') :
    Keeps w now (attempt m : Judged T E' (Except E A)) (attempt m') := by
  intro t hopen
  exact congrArg Except.ok (hm t hopen)

theorem keeps_forEach
    {f f' : A -> Judged T E Unit} {xs : List A}
    (hf : forall x, x ∈ xs -> Keeps w now (f x) (f' x)) :
    Keeps w now (forEach f xs) (forEach f' xs) := by
  induction xs with
  | nil => exact keeps_pure ()
  | cons x xs ih =>
      exact keeps_bind (hf x List.mem_cons_self) fun _ _ =>
        ih fun y hy => hf y (List.mem_cons_of_mem _ hy)

theorem not_passed_of_open_boundAll
    {ts : List T} {t : T} (h : w.Open now t ((boundAll ts : Judged T E Unit).expiry now)) :
    forall b, b ∈ ts -> now < b -> t < b := by
  induction ts with
  | nil =>
      intro b hb
      cases hb
  | cons s ts ih =>
      have hboth := w.split (show w.Open now t (earlier (if now < s then some s else none)
        ((boundAll ts : Judged T E Unit).expiry now)) from h)
      intro b hb hnow
      rcases List.mem_cons.mp hb with rfl | hb
      · have hs := hboth.1
        rw [if_pos hnow] at hs
        exact w.passes hs hnow
      · exact ih hboth.2 b hb hnow

theorem keeps_withNow_boundAll
    {ts ts' : T -> List T} {g g' : T -> Except E A}
    (hg : forall t, now ≤ t -> (forall b, b ∈ ts now -> now < b -> t < b) -> g' t = g now) :
    Keeps w now (withNow fun now => do boundAll (ts now); lift (g now))
      (withNow fun now => do boundAll (ts' now); lift (g' now)) := by
  intro t hopen
  have hok : (boundAll (ts now) : Judged T E Unit) now =
      (.ok (), (boundAll (ts now) : Judged T E Unit).expiry now) :=
    Prod.ext (outcome_boundAll (ts now) now) rfl
  change w.Open now t ((do boundAll (ts now); lift (g now) : Judged T E A).expiry now) at hopen
  rw [expiry_bind, hok] at hopen
  have hboth := w.split hopen
  simp only [outcome_withNow, outcome_bind, outcome_boundAll, outcome_lift]
  exact hg t (w.le hboth.1) (not_passed_of_open_boundAll hboth.1)

end Keeps

end Judged

end Expiring
