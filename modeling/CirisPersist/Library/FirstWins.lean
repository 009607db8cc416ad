import Mathlib.Data.List.Nodup
import Mathlib.Data.List.Perm.Basic

/-!
# Insert or ignore

A table with a primary key keeps the first row that arrives for a key and ignores
later ones.  What the table holds depends on the order of arrival exactly when two
different rows share a key.
-/

namespace FirstWins

variable {A K : Type*} [DecidableEq K]

def insert (key : A -> K) (held : List A) (a : A) : List A :=
  if held.any fun b => key b = key a then held else held ++ [a]

def insertAll (key : A -> K) (held rows : List A) : List A :=
  rows.foldl (insert key) held

def NoRivals (key : A -> K) (rows : List A) : Prop :=
  forall a, a ∈ rows -> forall b, b ∈ rows -> key a = key b -> a = b

variable {key : A -> K} {held rows : List A} {a b : A}

theorem mem_insert_of_mem
    (h : a ∈ held) :
    a ∈ insert key held b := by
  unfold insert
  split
  · exact h
  · exact List.mem_append_left _ h

theorem mem_of_mem_insert
    (h : a ∈ insert key held b) :
    a ∈ held ∨ a = b := by
  unfold insert at h
  split at h
  · exact Or.inl h
  · simpa using h

theorem exists_key_insert
    (key : A -> K) (held : List A) (a : A) :
    exists b, b ∈ insert key held a ∧ key b = key a := by
  by_cases hheld : held.any fun b => key b = key a
  · rcases List.any_eq_true.mp hheld with ⟨b, hb, hkey⟩
    exact ⟨b, mem_insert_of_mem hb, of_decide_eq_true hkey⟩
  · exact ⟨a, by simp [insert, hheld], rfl⟩

theorem nodup_insert
    (h : (held.map key).Nodup) :
    ((insert key held a).map key).Nodup := by
  unfold insert
  split
  · exact h
  · rename_i hnew
    rw [List.map_append, List.map_singleton, List.nodup_append]
    refine ⟨h, List.nodup_singleton _, ?_⟩
    intro k hk k' hk' heq
    rcases List.mem_map.mp hk with ⟨b, hb, rfl⟩
    rw [List.mem_singleton.mp hk'] at heq
    exact hnew (List.any_eq_true.mpr ⟨b, hb, decide_eq_true heq⟩)

theorem nodup_insertAll
    (h : (held.map key).Nodup) (rows : List A) :
    ((insertAll key held rows).map key).Nodup := by
  induction rows generalizing held with
  | nil => exact h
  | cons a rest ih => exact ih (nodup_insert h)

theorem nodup_table
    (key : A -> K) (rows : List A) :
    ((insertAll key [] rows).map key).Nodup := by
  have hempty : (([] : List A).map key).Nodup := List.nodup_nil
  exact nodup_insertAll hempty rows

theorem mem_insertAll_of_mem
    (rows : List A) (h : a ∈ held) :
    a ∈ insertAll key held rows := by
  induction rows generalizing held with
  | nil => exact h
  | cons b rest ih => exact ih (mem_insert_of_mem h)

theorem mem_of_mem_insertAll
    (h : a ∈ insertAll key held rows) :
    a ∈ held ∨ a ∈ rows := by
  induction rows generalizing held with
  | nil => exact Or.inl h
  | cons b rest ih =>
      rcases ih h with hmem | hmem
      · rcases mem_of_mem_insert hmem with hmem | rfl
        · exact Or.inl hmem
        · exact Or.inr List.mem_cons_self
      · exact Or.inr (List.mem_cons_of_mem _ hmem)

theorem exists_key_insertAll
    (key : A -> K) (held : List A) (h : a ∈ rows) :
    exists b, b ∈ insertAll key held rows ∧ key b = key a := by
  induction rows generalizing held with
  | nil => cases h
  | cons c rest ih =>
      rcases List.mem_cons.mp h with rfl | h
      · rcases exists_key_insert key held a with ⟨b, hb, hkey⟩
        exact ⟨b, mem_insertAll_of_mem rest hb, hkey⟩
      · exact ih _ h

theorem mem_insertAll_iff
    (h : NoRivals key rows) :
    a ∈ insertAll key [] rows <-> a ∈ rows := by
  have hsub : forall b, b ∈ insertAll key [] rows -> b ∈ rows :=
    fun b hb => (mem_of_mem_insertAll hb).resolve_left (List.not_mem_nil)
  refine ⟨hsub a, fun ha => ?_⟩
  rcases exists_key_insertAll key [] ha with ⟨b, hb, hkey⟩
  rw [h a ha b (hsub b hb) hkey.symm]
  exact hb

theorem insertAll_perm
    {rows' : List A} (h : NoRivals key rows) (hsame : forall a, a ∈ rows' <-> a ∈ rows) :
    (insertAll key [] rows').Perm (insertAll key [] rows) := by
  have h' : NoRivals key rows' := fun a ha b hb => h a ((hsame a).mp ha) b ((hsame b).mp hb)
  have hnodup : forall l : List A, (insertAll key [] l).Nodup := fun l => (nodup_table key l).of_map
  rw [List.perm_ext_iff_of_nodup (hnodup rows') (hnodup rows)]
  intro a
  rw [mem_insertAll_iff h', mem_insertAll_iff h, hsame]

/-- The table is the same in every order of arrival exactly when there are no rivals:
of two rivals the one that comes first is held. -/
theorem order_free_iff
    (key : A -> K) (rows : List A) :
    (forall rows' : List A, (forall a, a ∈ rows' <-> a ∈ rows) ->
      forall a, a ∈ insertAll key [] rows' <-> a ∈ insertAll key [] rows) <->
      NoRivals key rows := by
  constructor
  · intro hfree a ha b hb hkey
    have hfirst : forall c, c ∈ rows -> c ∈ insertAll key [] rows := by
      intro c hc
      have hsame : forall d, d ∈ c :: rows <-> d ∈ rows := by
        intro d
        rw [List.mem_cons]
        exact ⟨fun h => h.elim (fun hd => hd ▸ hc) id, Or.inr⟩
      refine (hfree (c :: rows) hsame c).mp ?_
      exact mem_insertAll_of_mem rows (by simp [insert])
    exact List.inj_on_of_nodup_map (nodup_table key rows) (hfirst a ha) (hfirst b hb) hkey
  · intro h rows' hsame a
    exact (insertAll_perm h hsame).mem_iff

theorem exists_find_key
    (key : A -> K) (h : a ∈ rows) :
    exists b, (rows.find? fun c => key c = key a) = some b ∧ b ∈ rows ∧ key b = key a := by
  have hsome : (rows.find? fun c => key c = key a).isSome = true := by
    simpa using ⟨a, h, rfl⟩
  rcases Option.isSome_iff_exists.mp hsome with ⟨b, hb⟩
  exact ⟨b, hb, List.mem_of_find?_eq_some hb, by simpa using List.find?_some hb⟩

theorem find_key_eq_some_iff
    {k : K} (hnodup : (rows.map key).Nodup) :
    (rows.find? fun c => key c = k) = some a <-> a ∈ rows ∧ key a = k := by
  constructor
  · intro h
    exact ⟨List.mem_of_find?_eq_some h, by simpa using List.find?_some h⟩
  · rintro ⟨ha, rfl⟩
    rcases exists_find_key key ha with ⟨b, hfind, hb, hkey⟩
    rw [hfind, List.inj_on_of_nodup_map hnodup hb ha hkey]

theorem find_key_eq_of_perm
    {l l' : List A} {k : K} (hnodup : (l.map key).Nodup) (hperm : l'.Perm l) :
    (l'.find? fun a => key a = k) = l.find? fun a => key a = k := by
  have hnodup' : (l'.map key).Nodup := (hperm.map key).nodup_iff.mpr hnodup
  ext a
  rw [find_key_eq_some_iff hnodup', find_key_eq_some_iff hnodup, hperm.mem_iff]

end FirstWins
