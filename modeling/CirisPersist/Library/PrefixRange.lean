import Mathlib.Data.List.Basic

/-!
# The range of a common front

In the lexicographic order the lists that start with a given list lie side by side.
They begin at that list and end before the list whose last letter is stepped up.  A
letter at the top of its alphabet has nothing above it: it is dropped, and the letter
before it is stepped up instead.
-/

namespace CirisPersist.PrefixRange

section Library

universe u

variable {α : Type u} [LT α]

/-- A total order on the letters in which `next` steps to the letter right above. -/
structure Stepped (next : α -> Option α) : Prop where
  irrefl : forall a : α, ¬ a < a
  total : forall a b : α, a < b ∨ a = b ∨ b < a
  above : forall a b : α, next a = some b -> forall c, c < b <-> c < a ∨ c = a
  top : forall a : α, next a = none -> forall c, ¬ a < c

/-- The end of the range of a list, which is given back to front. -/
def successor (next : α -> Option α) : List α -> Option (List α)
  | [] => none
  | last :: rest =>
      match next last with
      | none => successor next rest
      | some b => some (b :: rest).reverse

omit [LT α] in
theorem exists_of_successor
    {next : α -> Option α} {upper : List α} (back : List α) (h : successor next back = some upper) :
    exists front a b tops, back.reverse = front ++ a :: tops ∧ next a = some b ∧
      (forall t, t ∈ tops -> next t = none) ∧ upper = front ++ [b] := by
  induction back with
  | nil => cases h
  | cons last rest ih =>
      rw [successor] at h
      cases hnext : next last with
      | none =>
          rw [hnext] at h
          rcases ih h with ⟨front, a, b, tops, hrest, hab, htops, hupper⟩
          refine ⟨front, a, b, tops ++ [last], ?_, hab, ?_, hupper⟩
          · rw [List.reverse_cons, hrest, List.append_assoc, List.cons_append]
          · intro t ht
            rcases List.mem_append.mp ht with ht | ht
            · exact htops t ht
            · rw [List.mem_singleton.mp ht]
              exact hnext
      | some b =>
          rw [hnext] at h
          cases h
          refine ⟨rest.reverse, last, b, [], ?_, hnext, ?_, ?_⟩
          · rw [List.reverse_cons]
          · intro t ht
            cases ht
          · rw [List.reverse_cons]

variable {next : α -> Option α}

theorem not_lt_of_cons_le
    {a c : α} {l s : List α} (h : a :: l ≤ c :: s) :
    ¬ c < a := by
  intro hlt
  exact h (List.cons_lt_cons_iff.mpr (Or.inl hlt))

theorem cons_le_cons_iff
    (hnext : Stepped next) (a : α) (l s : List α) :
    a :: l ≤ a :: s <-> l ≤ s := by
  refine not_congr ?_
  rw [List.cons_lt_cons_iff]
  simp [hnext.irrefl a]

theorem cons_lt_cons_self_iff
    (hnext : Stepped next) (a : α) (l s : List α) :
    a :: l < a :: s <-> l < s := by
  rw [List.cons_lt_cons_iff]
  simp [hnext.irrefl a]

theorem between_append_iff
    (hnext : Stepped next) (front low high : List α) :
    forall s, front ++ low ≤ s ∧ s < front ++ high <->
      exists t, s = front ++ t ∧ low ≤ t ∧ t < high := by
  induction front with
  | nil =>
      intro s
      simp
  | cons a front ih =>
      intro s
      rw [List.cons_append, List.cons_append]
      constructor
      · rintro ⟨hlow, hhigh⟩
        cases s with
        | nil => exact absurd (List.nil_lt_cons a _) hlow
        | cons c s =>
            rcases List.cons_lt_cons_iff.mp hhigh with hlt | ⟨rfl, htail⟩
            · exact absurd hlt (not_lt_of_cons_le hlow)
            · rcases (ih s).mp ⟨(cons_le_cons_iff hnext c _ s).mp hlow, htail⟩ with ⟨t, rfl, ht⟩
              exact ⟨t, rfl, ht⟩
      · rintro ⟨t, rfl, ht⟩
        rcases (ih (front ++ t)).mpr ⟨t, rfl, ht⟩ with ⟨hlow, hhigh⟩
        exact ⟨(cons_le_cons_iff hnext a _ _).mpr hlow,
          (cons_lt_cons_self_iff hnext a _ _).mpr hhigh⟩

theorem tops_le_iff
    (hnext : Stepped next) (tops : List α) :
    forall s, (forall t, t ∈ tops -> next t = none) -> (tops ≤ s <-> tops <+: s) := by
  induction tops with
  | nil =>
      intro s _
      simp
  | cons a tops ih =>
      intro s htops
      cases s with
      | nil => simp
      | cons c s =>
          have hrest := ih s fun t ht => htops t (List.mem_cons_of_mem a ht)
          rw [List.cons_prefix_cons, ← hrest]
          constructor
          · intro hle
            rcases hnext.total c a with hlt | rfl | hgt
            · exact absurd hlt (not_lt_of_cons_le hle)
            · exact ⟨rfl, (cons_le_cons_iff hnext c tops s).mp hle⟩
            · exact absurd hgt (hnext.top a (htops a List.mem_cons_self) c)
          · rintro ⟨rfl, hle⟩
            exact (cons_le_cons_iff hnext a tops s).mpr hle

theorem between_stepped_iff
    (hnext : Stepped next) {a b : α} (hab : next a = some b) {tops : List α}
    (htops : forall t, t ∈ tops -> next t = none) (s : List α) :
    a :: tops ≤ s ∧ s < [b] <-> a :: tops <+: s := by
  cases s with
  | nil => simp
  | cons c s =>
      rw [List.cons_prefix_cons, ← tops_le_iff hnext tops s htops]
      constructor
      · rintro ⟨hlow, hhigh⟩
        rcases List.cons_lt_cons_iff.mp hhigh with hcb | ⟨-, hnil⟩
        · rcases (hnext.above a b hab c).mp hcb with hca | rfl
          · exact absurd hca (not_lt_of_cons_le hlow)
          · exact ⟨rfl, (cons_le_cons_iff hnext c tops s).mp hlow⟩
        · cases hnil
      · rintro ⟨rfl, hle⟩
        have hab : a < b := (hnext.above a b hab a).mpr (Or.inr rfl)
        exact ⟨(cons_le_cons_iff hnext a tops s).mpr hle, List.cons_lt_cons_iff.mpr (Or.inl hab)⟩

theorem between_successor_iff
    (hnext : Stepped next) {front upper : List α}
    (hupper : successor next front.reverse = some upper) (s : List α) :
    front ≤ s ∧ s < upper <-> front <+: s := by
  rcases exists_of_successor _ hupper with ⟨init, a, b, tops, hfront, hab, htops, rfl⟩
  rw [List.reverse_reverse] at hfront
  rw [hfront, between_append_iff hnext]
  constructor
  · rintro ⟨t, rfl, ht⟩
    exact (List.prefix_append_right_inj init).mpr ((between_stepped_iff hnext hab htops t).mp ht)
  · rintro ⟨rest, rfl⟩
    refine ⟨a :: tops ++ rest, List.append_assoc init (a :: tops) rest, ?_⟩
    exact (between_stepped_iff hnext hab htops _).mpr (List.prefix_append _ _)

end Library

end CirisPersist.PrefixRange
