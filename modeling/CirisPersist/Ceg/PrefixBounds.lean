import CirisPersist.Base.Bytes
import CirisPersist.Base.Text
import CirisPersist.Library.PrefixRange
import Mathlib.Data.List.TakeWhile

/-!
# Dimension prefixes as ranges

A read of every dimension with a given stem is planned as a range of the dimension
index.  The index compares texts by their UTF-8 bytes.  The range starts at the stem
and ends at the stem with its last byte incremented; where those bytes are no text,
the plan compares the front of each dimension with the stem instead.
-/

namespace CirisPersist.Ceg

/-!
## Byte order
-/

/-- The texts compared by their UTF-8 bytes, as `COLLATE "C"` and `BINARY` do. -/
def ByteLe (s t : String) : Prop :=
  s.toUTF8.toList ≤ t.toUTF8.toList

def ByteLt (s t : String) : Prop :=
  s.toUTF8.toList < t.toUTF8.toList

instance (s t : String) : Decidable (ByteLe s t) :=
  inferInstanceAs (Decidable (s.toUTF8.toList ≤ t.toUTF8.toList))

instance (s t : String) : Decidable (ByteLt s t) :=
  inferInstanceAs (Decidable (s.toUTF8.toList < t.toUTF8.toList))

theorem startsWith_iff_bytes
    (pre s : String) :
    Text.startsWith pre s = true <-> pre.toUTF8.toList <+: s.toUTF8.toList := by
  have hbytes : forall t : String, t.toUTF8.toList = t.toList.flatMap String.utf8EncodeChar := by
    intro t
    rw [← toList_toUTF8_ofList, String.ofList_toList]
  rw [Text.startsWith, List.isPrefixOf_iff_prefix, hbytes, hbytes]
  constructor
  · rintro ⟨rest, hrest⟩
    rw [← hrest, List.flatMap_append]
    exact List.prefix_append _ _
  · rintro ⟨rest, hrest⟩
    refine List.isPrefix_of_utf8Encode_append_eq_utf8Encode rest.toByteArray ?_
    rw [List.utf8Encode, List.utf8Encode, ← hrest, List.toByteArray_append]

theorem toNat_lt_of_mem_utf8EncodeChar
    {c : Char} {b : UInt8} (h : b ∈ String.utf8EncodeChar c) :
    b.toNat < 255 := by
  have hofNat : forall n, n < 255 -> b = UInt8.ofNat n -> b.toNat < 255 := by
    intro n hn hb
    rw [hb, UInt8.toNat_ofNat']
    exact lt_of_le_of_lt (Nat.mod_le _ _) hn
  unfold String.utf8EncodeChar at h
  dsimp only at h
  split at h
  · rw [List.mem_singleton] at h
    exact hofNat _ (by omega) h
  · split at h
    · simp only [List.mem_cons, List.not_mem_nil, or_false] at h
      rcases h with h | h <;> exact hofNat _ (by omega) h
    · split at h
      · simp only [List.mem_cons, List.not_mem_nil, or_false] at h
        rcases h with h | h | h <;> exact hofNat _ (by omega) h
      · simp only [List.mem_cons, List.not_mem_nil, or_false] at h
        rcases h with h | h | h | h <;> exact hofNat _ (by omega) h

theorem toNat_lt_of_mem_utf8
    {s : String} {b : UInt8} (h : b ∈ s.toUTF8.toList) :
    b.toNat < 255 := by
  rw [← String.ofList_toList (s := s), toList_toUTF8_ofList, List.mem_flatMap] at h
  rcases h with ⟨c, -, hb⟩
  exact toNat_lt_of_mem_utf8EncodeChar hb

/-!
## The bounds
-/

def nextByte (b : UInt8) : Option UInt8 :=
  if b = 255 then none else some (b + 1)

theorem nextByte_eq_some_iff
    (a b : UInt8) :
    nextByte a = some b <-> b.toNat = a.toNat + 1 := by
  have ha := a.toNat_lt
  have hb := b.toNat_lt
  have hlast : a = 255 <-> a.toNat = 255 := by
    rw [← UInt8.toNat_inj]
    rfl
  unfold nextByte
  split
  · rename_i htop
    rw [hlast] at htop
    constructor
    · intro h
      cases h
    · omega
  · rename_i htop
    rw [hlast] at htop
    rw [Option.some.injEq, ← UInt8.toNat_inj, UInt8.toNat_add, UInt8.toNat_one]
    omega

theorem stepped_nextByte : PrefixRange.Stepped nextByte where
  irrefl := fun a => UInt8.lt_irrefl a
  total := by
    intro a b
    rw [UInt8.lt_iff_toNat_lt, UInt8.lt_iff_toNat_lt, ← UInt8.toNat_inj]
    omega
  above := by
    intro a b hab c
    have hstep := (nextByte_eq_some_iff a b).mp hab
    rw [UInt8.lt_iff_toNat_lt, UInt8.lt_iff_toNat_lt, ← UInt8.toNat_inj]
    omega
  top := by
    intro a htop c hlt
    have hc := c.toNat_lt
    rw [UInt8.lt_iff_toNat_lt] at hlt
    have hstep := (nextByte_eq_some_iff a (a + 1)).mpr (by
      rw [UInt8.toNat_add, UInt8.toNat_one]
      omega)
    rw [htop] at hstep
    cases hstep

/-- The bytes are popped from the end, so the loop runs over them back to front. -/
def dimensionPrefixBounds (pre : String) : Option (String × String) :=
  if pre = "" then
    none
  else
    (PrefixRange.successor nextByte pre.toUTF8.toList.reverse).bind fun bytes =>
      (String.fromUTF8? bytes.toByteArray).map fun upper => (pre, upper)

theorem toUTF8_empty : "".toUTF8.toList = [] := by
  rw [toList_eq_data]
  rfl

theorem toUTF8_of_fromUTF8?
    {bytes : List UInt8} {s : String} (h : String.fromUTF8? bytes.toByteArray = some s) :
    s.toUTF8.toList = bytes := by
  unfold String.fromUTF8? at h
  split at h
  · cases h
    rw [toList_eq_data]
    exact List.toList_data_toByteArray
  · cases h

theorem fromUTF8?_eq_none_iff
    (bytes : ByteArray) :
    String.fromUTF8? bytes = none <-> ¬ bytes.IsValidUTF8 := by
  unfold String.fromUTF8?
  split
  · rename_i hvalid
    simp [hvalid]
  · rename_i hvalid
    simp [hvalid]

theorem dimensionPrefixBounds_eq
    {pre : String} {init : List UInt8} {last : UInt8}
    (hbytes : pre.toUTF8.toList = init ++ [last]) :
    dimensionPrefixBounds pre =
      (String.fromUTF8? (init ++ [last + 1]).toByteArray).map fun upper => (pre, upper) := by
  have hne : pre ≠ "" := by
    intro hempty
    rw [hempty, toUTF8_empty] at hbytes
    exact List.append_ne_nil_of_right_ne_nil init (List.cons_ne_nil last []) hbytes.symm
  have hlast : last.toNat < 255 :=
    toNat_lt_of_mem_utf8 (s := pre) (hbytes ▸ List.mem_append_right init List.mem_cons_self)
  have hnext : nextByte last = some (last + 1) := by
    rw [nextByte_eq_some_iff, UInt8.toNat_add, UInt8.toNat_one]
    omega
  rw [dimensionPrefixBounds, if_neg hne, hbytes, List.reverse_append, List.reverse_singleton,
    List.singleton_append, PrefixRange.successor, hnext]
  simp

theorem between_bounds_iff
    {pre lo hi : String} (hbounds : dimensionPrefixBounds pre = some (lo, hi)) (s : String) :
    ByteLe lo s ∧ ByteLt s hi <-> Text.startsWith pre s = true := by
  unfold dimensionPrefixBounds at hbounds
  split at hbounds
  · cases hbounds
  · rcases Option.bind_eq_some_iff.mp hbounds with ⟨bytes, hsuccessor, hdecode⟩
    rcases Option.map_eq_some_iff.mp hdecode with ⟨upper, hupper, hpair⟩
    cases hpair
    rw [startsWith_iff_bytes, ByteLe, ByteLt, toUTF8_of_fromUTF8? hupper]
    exact PrefixRange.between_successor_iff stepped_nextByte hsuccessor _

/-- The range of a stem holds the texts that start with it and no other, and there is
no range only for the empty stem and for one whose last byte cannot be incremented. -/
theorem dimension_prefix_range :
    (forall pre lo hi, dimensionPrefixBounds pre = some (lo, hi) ->
      forall s, ByteLe lo s ∧ ByteLt s hi <-> Text.startsWith pre s = true) ∧
    forall pre, dimensionPrefixBounds pre = none <->
      pre = "" ∨ exists init last, pre.toUTF8.toList = init ++ [last] ∧
        ¬ (init ++ [last + 1]).toByteArray.IsValidUTF8 := by
  constructor
  · intro pre lo hi hbounds s
    exact between_bounds_iff hbounds s
  · intro pre
    by_cases hempty : pre = ""
    · simp [hempty, dimensionPrefixBounds]
    · have hnonempty : pre.toUTF8.toList ≠ [] := by
        intro hnil
        exact hempty (toUTF8_toList_inj (hnil.trans toUTF8_empty.symm))
      rcases List.eq_nil_or_concat' pre.toUTF8.toList with hnil | ⟨init, last, hbytes⟩
      · exact absurd hnil hnonempty
      · rw [dimensionPrefixBounds_eq hbytes, Option.map_eq_none_iff, fromUTF8?_eq_none_iff]
        constructor
        · intro hinvalid
          exact Or.inr ⟨init, last, hbytes, hinvalid⟩
        · rintro (h | ⟨init', last', hbytes', hinvalid⟩)
          · exact absurd h hempty
          · rcases List.append_inj' (hbytes.symm.trans hbytes') rfl with ⟨rfl, hlast⟩
            cases hlast
            exact hinvalid

theorem configPrefix_range :
    dimensionPrefixBounds "config:" = some ("config:", "config;") ∧
      forall s, ByteLe "config:" s ∧ ByteLt s "config;" <->
        Text.startsWith "config:" s = true := by
  have hbounds : dimensionPrefixBounds "config:" = some ("config:", "config;") := by
    decide +kernel
  exact ⟨hbounds, dimension_prefix_range.1 _ _ _ hbounds⟩

def nul : Char := Char.ofNat 0

/-- SQLite's `substr(text, 1, count)`, which counts characters and stops at a NUL. -/
def sqlSubstr (text : String) (count : Nat) : String :=
  String.ofList ((text.toList.takeWhile (· ≠ nul)).take count)

theorem sqlSubstr_eq_iff
    (stem text : String) :
    sqlSubstr text stem.toList.length = stem <->
      stem.toList <+: text.toList ∧ nul ∉ stem.toList := by
  rw [sqlSubstr, ← String.toList_inj, String.toList_ofList]
  constructor
  · intro hfront
    have hread : stem.toList <+: text.toList.takeWhile (· ≠ nul) :=
      List.prefix_iff_eq_take.mpr hfront.symm
    refine ⟨hread.trans (List.takeWhile_prefix _), ?_⟩
    intro hnul
    simpa using List.mem_takeWhile_imp (hread.subset hnul)
  · rintro ⟨⟨rest, hrest⟩, hnul⟩
    have hclean : forall c, c ∈ stem.toList -> decide (c ≠ nul) = true := by
      intro c hc
      exact decide_eq_true fun heq => hnul (heq ▸ hc)
    rw [← hrest, List.takeWhile_append_of_pos hclean, List.take_left]

/-- What the planned statement asks of a column that is to start with a stem. -/
def prefixClause (stem text : String) : Bool :=
  match dimensionPrefixBounds stem with
  | some (lo, hi) => decide (ByteLe lo text) && decide (ByteLt text hi)
  | none => sqlSubstr text stem.toList.length == stem

/-- The statement selects the texts that start with the stem, except that a stem with a NUL
and without a range selects nothing. -/
theorem prefixClause_eq_startsWith
    (stem text : String) :
    prefixClause stem text =
      (Text.startsWith stem text &&
        ((dimensionPrefixBounds stem).isSome || !stem.toList.contains nul)) := by
  unfold prefixClause
  cases hbounds : dimensionPrefixBounds stem with
  | some bounds =>
      have hrange := between_bounds_iff hbounds text
      rw [Bool.eq_iff_iff]
      simp [← hrange]
  | none =>
      rw [Bool.eq_iff_iff, beq_iff_eq, sqlSubstr_eq_iff, ← List.isPrefixOf_iff_prefix,
        ← Text.startsWith]
      simp

example : dimensionPrefixBounds "az" = some ("az", "a\x7b") := by decide +kernel

end CirisPersist.Ceg
