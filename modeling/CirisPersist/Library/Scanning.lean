import Mathlib.Data.List.TakeWhile

/-!
# Scans

A scan takes characters off the front of a text.  Scans are put together from single
characters, runs, sequences and alternatives, and the first alternative that succeeds is
taken.

A scan over an alphabet takes characters of the alphabet only.  It goes as far as it can
inside the text, so what it takes does not change when text that starts outside the
alphabet is put behind.
-/

namespace CirisPersist

def Scan :=
  List Char -> Option (List Char × List Char)

namespace Scan

def skip : Scan :=
  fun cs => some ([], cs)

def one (p : Char -> Bool) : Scan
  | [] => none
  | c :: cs => if p c then some ([c], cs) else none

def many (p : Char -> Bool) : Scan :=
  fun cs => some (cs.takeWhile p, cs.dropWhile p)

def seq (f g : Scan) : Scan :=
  fun cs => (f cs).bind fun x => (g x.2).map fun y => (x.1 ++ y.1, y.2)

def either (f g : Scan) : Scan :=
  fun cs => (f cs).or (g cs)

def maybe (f : Scan) : Scan :=
  either f skip

def EndsBefore (p : Char -> Bool) (rest : List Char) : Prop :=
  forall c, rest.head? = some c -> p c = false

theorem endsBefore_nil
    (p : Char -> Bool) :
    EndsBefore p [] := by
  intro c hc
  cases hc

theorem endsBefore_cons
    {p : Char -> Bool} {c : Char} (rest : List Char) (hc : p c = false) :
    EndsBefore p (c :: rest) := by
  intro d hd
  rw [← Option.some.inj hd, hc]

theorem EndsBefore.mono
    {p q : Char -> Bool} {rest : List Char} (hrest : EndsBefore p rest)
    (hq : forall c, q c = true -> p c = true) :
    EndsBefore q rest := by
  intro c hc
  rw [← Bool.not_eq_true]
  intro hqc
  have hpc := hrest c hc
  rw [hq c hqc] at hpc
  cases hpc

structure Over (p : Char -> Bool) (f : Scan) : Prop where
  taken : forall cs x, f cs = some x -> forall c, c ∈ x.1 -> p c = true
  extend : forall cs rest, EndsBefore p rest ->
    f (cs ++ rest) = (f cs).map fun x => (x.1, x.2 ++ rest)

section Over

variable {p q : Char -> Bool} {f g : Scan}

theorem over_skip : Over p skip where
  taken cs x h := by
    cases h
    nofun
  extend cs rest hrest := rfl

theorem over_one
    (hq : forall c, q c = true -> p c = true) :
    Over p (one q) where
  taken cs x h := by
    cases cs with
    | nil => cases h
    | cons d cs =>
        simp only [one] at h
        split at h
        · rename_i hd
          cases h
          intro c hc
          rw [List.mem_singleton.mp hc]
          exact hq d hd
        · cases h
  extend cs rest hrest := by
    cases cs with
    | cons d cs =>
        simp only [List.cons_append, one]
        split <;> rfl
    | nil =>
        cases rest with
        | nil => rfl
        | cons c rest =>
            have hc : q c = false := hrest.mono hq c rfl
            simp [one, hc]

theorem over_many
    (hq : forall c, q c = true -> p c = true) :
    Over p (many q) where
  taken cs x h := by
    cases h
    intro c hc
    exact hq c (List.mem_takeWhile_imp hc)
  extend cs rest hrest := by
    have hstop : EndsBefore q rest := hrest.mono hq
    simp only [many, Option.map_some, Option.some.injEq, Prod.mk.injEq]
    induction cs with
    | nil =>
        cases rest with
        | nil => exact ⟨rfl, rfl⟩
        | cons c rest => simp [hstop c rfl]
    | cons d cs ih =>
        cases hd : q d with
        | true => simp [hd, ih]
        | false => simp [hd]

theorem over_seq
    (hf : Over p f) (hg : Over p g) :
    Over p (seq f g) where
  taken cs x h := by
    rcases Option.bind_eq_some_iff.mp h with ⟨y, hy, hmap⟩
    rcases Option.map_eq_some_iff.mp hmap with ⟨z, hz, rfl⟩
    intro c hc
    rcases List.mem_append.mp hc with hcy | hcz
    · exact hf.taken cs y hy c hcy
    · exact hg.taken y.2 z hz c hcz
  extend cs rest hrest := by
    unfold seq
    rw [hf.extend cs rest hrest]
    cases f cs with
    | none => rfl
    | some x =>
        simp only [Option.map_some, Option.bind_some]
        rw [hg.extend x.2 rest hrest, Option.map_map, Option.map_map]
        rfl

theorem over_either
    (hf : Over p f) (hg : Over p g) :
    Over p (either f g) where
  taken cs x h := by
    rcases Option.or_eq_some_iff.mp h with hx | ⟨-, hx⟩
    · exact hf.taken cs x hx
    · exact hg.taken cs x hx
  extend cs rest hrest := by
    unfold either
    rw [hf.extend cs rest hrest, hg.extend cs rest hrest]
    cases f cs with
    | none => rfl
    | some x => rfl

theorem over_maybe
    (hf : Over p f) :
    Over p (maybe f) :=
  over_either hf over_skip

theorem Over.append
    (hf : Over p f) {cs rest : List Char} (hwhole : f cs = some (cs, []))
    (hrest : EndsBefore p rest) :
    f (cs ++ rest) = some (cs, rest) := by
  rw [hf.extend cs rest hrest, hwhole]
  rfl

end Over

end Scan
end CirisPersist
