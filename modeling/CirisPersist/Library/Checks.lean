import Mathlib.Data.List.Forall2

/-!
# Computations that may refuse

A door is a sequence of checks, each of which may end it with a reason.  A run of
the whole sequence that succeeds is taken apart into the successes of its checks.
-/

namespace Checks

variable {e a b c : Type}

def require (p : Bool) (reason : e) : Except e Unit :=
  if p then .ok () else .error reason

def orRefuse (o : Option a) (reason : e) : Except e a :=
  match o with
  | some x => .ok x
  | none => .error reason

def refuseAny (o : Option a) (reason : a -> e) : Except e Unit :=
  match o with
  | some x => .error (reason x)
  | none => .ok ()

def checkAll (check : c -> Except e Unit) : List c -> Except e Unit
  | [] => .ok ()
  | x :: xs => do
      check x
      checkAll check xs

def readAll (read : c -> Except e a) : List c -> Except e (List a)
  | [] => .ok []
  | x :: xs => do
      let y ← read x
      let ys ← readAll read xs
      .ok (y :: ys)

/-- Whether some item has the property; items after the first that has it are not tried. -/
def anyChecked (p : c -> Except e Bool) : List c -> Except e Bool
  | [] => .ok false
  | x :: xs => do
      let found ← p x
      if found then .ok true else anyChecked p xs

def filterChecked (p : c -> Except e Bool) : List c -> Except e (List c)
  | [] => .ok []
  | x :: xs => do
      let kept ← p x
      let rest ← filterChecked p xs
      .ok (if kept then x :: rest else rest)

/-!
## Successful runs
-/

variable {x : Except e a}

theorem bind_eq_ok_iff
    {f : a -> Except e b} {y : b} :
    (x >>= f) = .ok y <-> exists z, x = .ok z ∧ f z = .ok y := by
  cases x with
  | error reason =>
      constructor
      · intro h
        cases h
      · rintro ⟨_, h, _⟩
        cases h
  | ok z =>
      constructor
      · intro h
        exact ⟨z, rfl, h⟩
      · rintro ⟨_, hz, h⟩
        cases hz
        exact h

variable {u : Unit}

theorem require_eq_ok_iff
    {p : Bool} {reason : e} :
    require p reason = .ok u <-> p = true := by
  cases p with
  | false => simp [require]
  | true => simp [require]

theorem orRefuse_eq_ok_iff
    {o : Option a} {reason : e} {x : a} :
    orRefuse o reason = .ok x <-> o = some x := by
  cases o with
  | none => simp [orRefuse]
  | some y => simp [orRefuse]

theorem refuseAny_eq_ok_iff
    {o : Option a} {reason : a -> e} :
    refuseAny o reason = .ok u <-> o = none := by
  cases o with
  | none => simp [refuseAny]
  | some x => simp [refuseAny]

variable {xs : List c}

theorem checkAll_eq_ok_iff
    {check : c -> Except e Unit} :
    checkAll check xs = .ok u <-> forall x, x ∈ xs -> check x = .ok () := by
  induction xs with
  | nil => simp [checkAll]
  | cons x xs ih =>
      simp only [checkAll, bind_eq_ok_iff, ih, List.mem_cons, forall_eq_or_imp]
      constructor
      · rintro ⟨_, hx, hxs⟩
        exact ⟨hx, hxs⟩
      · rintro ⟨hx, hxs⟩
        exact ⟨(), hx, hxs⟩

theorem readAll_eq_ok_iff
    {read : c -> Except e a} {ys : List a} :
    readAll read xs = .ok ys <-> List.Forall₂ (fun x y => read x = .ok y) xs ys := by
  induction xs generalizing ys with
  | nil => simp [readAll, eq_comm]
  | cons x xs ih =>
      simp only [readAll, bind_eq_ok_iff, ih]
      constructor
      · rintro ⟨y, hy, zs, hzs, h⟩
        cases h
        exact List.Forall₂.cons hy hzs
      · intro h
        cases h with
        | cons hy hzs => exact ⟨_, hy, _, hzs, rfl⟩

/-!
Where every item goes through, the checked traversals are the plain ones.
-/

theorem readAll_eq_map
    {read : c -> Except e a} {f : c -> a} (h : forall x, x ∈ xs -> read x = .ok (f x)) :
    readAll read xs = .ok (xs.map f) := by
  refine readAll_eq_ok_iff.mpr (List.forall₂_map_right_iff.mpr ?_)
  exact List.forall₂_same.mpr h

theorem anyChecked_eq_any
    {p : c -> Except e Bool} {f : c -> Bool} (h : forall x, x ∈ xs -> p x = .ok (f x)) :
    anyChecked p xs = .ok (xs.any f) := by
  induction xs with
  | nil => rfl
  | cons x xs ih =>
      have hxs := ih fun y hy => h y (List.mem_cons_of_mem x hy)
      refine bind_eq_ok_iff.mpr ⟨f x, h x List.mem_cons_self, ?_⟩
      cases hx : f x with
      | true => simp [hx]
      | false => simp [hx, hxs]

theorem filterChecked_eq_filter
    {p : c -> Except e Bool} {f : c -> Bool} (h : forall x, x ∈ xs -> p x = .ok (f x)) :
    filterChecked p xs = .ok (xs.filter f) := by
  induction xs with
  | nil => rfl
  | cons x xs ih =>
      have hxs := ih fun y hy => h y (List.mem_cons_of_mem x hy)
      refine bind_eq_ok_iff.mpr ⟨f x, h x List.mem_cons_self, ?_⟩
      refine bind_eq_ok_iff.mpr ⟨xs.filter f, hxs, ?_⟩
      rw [List.filter_cons]

theorem map_eq_ok_iff
    {f : a -> b} {y : b} :
    x.map f = .ok y <-> exists z, x = .ok z ∧ f z = y := by
  cases x with
  | error reason => simp [Except.map]
  | ok z => simp [Except.map]

theorem toOption_eq_some_iff
    {y : a} :
    x.toOption = some y <-> x = .ok y := by
  cases x with
  | error reason => simp [Except.toOption]
  | ok z => simp [Except.toOption]

theorem exists_map_eq_error_iff
    {f : a -> b} :
    (exists reason, x.map f = .error reason) <-> ¬ exists z, x = .ok z := by
  cases x with
  | error reason => simp [Except.map]
  | ok z => simp [Except.map]

end Checks
