import CirisPersist.Federation.Namespace.Matcher
import Mathlib.Data.List.Basic

/-!
# The fences of the dimension matcher

A dimension that the matcher admits as open vocabulary lies outside every fence of the table.
A dimension that it admits under a family that needs a version ends in one, unless the table
gives the family's version segment a class under which the matcher does not check it.
-/

namespace CirisPersist.Federation
namespace Namespace

variable {r : Rules}

/-!
## One family

What a segment list consumes, and what its last segment says of the last part.
-/

variable {seg : Seg}

theorem version_of_checkSeg
    {got : String} (hseg : seg.segment = versionPlaceholder)
    (hchecked : checkSeg r seg got = none) :
    r.version got = true := by
  unfold checkSeg malformedUnless at hchecked
  rw [if_pos hseg] at hchecked
  split at hchecked
  · cases hchecked
  · split at hchecked
    · assumption
    · cases hchecked

theorem spanRefusal_eq_none_iff
    (span : List String) {refusal : Option Refusal} :
    spanRefusal r seg span refusal = none <->
      refusal = none ∧ forall got, got ∈ span -> checkSeg r seg got = none := by
  induction span generalizing refusal with
  | nil => simp [spanRefusal]
  | cons got span ih =>
      have hstep : spanRefusal r seg (got :: span) refusal =
          spanRefusal r seg span (refusal.or (checkSeg r seg got)) := rfl
      rw [hstep, ih, Option.or_eq_none_iff]
      simp only [List.mem_cons, forall_eq_or_imp]
      exact and_assoc

variable {found : Binds × Option Refusal} {segs : List Seg} {spans : Option Nat}
  {tail : List String}

theorem matchFixed_cons
    {parts : List String} {result : Binds × Option Refusal}
    (hmatch : matchFixed r spans (seg :: segs) parts found = some (tail, result)) :
    (exists extra span rest binds,
      spans = some extra ∧ seg.multi = true ∧ parts = span ++ rest ∧ span.length = 1 + extra ∧
        matchFixed r none segs rest (binds, spanRefusal r seg span found.2) = some (tail, result)) ∨
    (exists got rest next,
      (spans = none ∨ seg.multi = false) ∧ parts = got :: rest ∧
        matchFixed r spans segs rest next = some (tail, result) ∧
        ((seg.segmentClass = .literal ∧ seg.segment = got) ∨
          next.2 = found.2.or (checkSeg r seg got))) := by
  rcases found with ⟨binds, refusal⟩
  unfold matchFixed at hmatch
  split at hmatch
  · rename_i extra hmulti
    simp only at hmatch
    split at hmatch
    · cases hmatch
    · rename_i hlen
      exact Or.inl ⟨extra, parts.take (1 + extra), parts.drop (1 + extra), _, rfl, hmulti,
        (List.take_append_drop _ _).symm, not_not.mp hlen, hmatch⟩
  · rename_i spans _ _ hplain
    have hsingle : spans = none ∨ seg.multi = false := by
      cases spans with
      | none => exact Or.inl rfl
      | some extra =>
          cases hmulti : seg.multi with
          | false => exact Or.inr rfl
          | true => exact absurd hmulti (hplain extra rfl)
    cases parts with
    | nil => cases hmatch
    | cons got rest =>
        simp only at hmatch
        split at hmatch
        · rename_i hliteral
          split at hmatch
          · cases hmatch
          · rename_i hsame
            exact Or.inr ⟨got, rest, _, hsingle, rfl, hmatch, Or.inl ⟨hliteral, not_not.mp hsame⟩⟩
        · exact Or.inr ⟨got, rest, _, hsingle, rfl, hmatch, Or.inr rfl⟩

def width (spans : Option Nat) (segs : List Seg) : Nat :=
  segs.length + if segs.any Seg.multi then spans.getD 0 else 0

theorem length_of_matchFixed
    {parts : List String} {result : Binds × Option Refusal}
    (hmatch : matchFixed r spans segs parts found = some (tail, result)) :
    parts.length = width spans segs + tail.length := by
  induction segs generalizing spans parts found with
  | nil =>
      simp only [matchFixed, Option.some.injEq, Prod.mk.injEq] at hmatch
      simp [width, hmatch.1]
  | cons seg segs ih =>
      rcases matchFixed_cons hmatch with
        ⟨extra, span, rest, binds, hspans, hmulti, hparts, hlen, hrest⟩ |
        ⟨got, rest, next, hsingle, hparts, hrest, -⟩
      · have hwidth := ih hrest
        simp only [width, Option.getD_none, ite_self, Nat.add_zero] at hwidth
        simp only [width, hspans, hparts, List.any_cons, hmulti, Bool.true_or, if_true,
          Option.getD_some, List.length_append, List.length_cons, hlen, hwidth]
        omega
      · have hwidth := ih hrest
        rcases hsingle with hnone | hplain
        · subst hnone
          simp only [width, Option.getD_none, ite_self, Nat.add_zero] at hwidth
          simp only [width, Option.getD_none, ite_self, hparts, List.length_cons, hwidth]
          omega
        · simp only [width] at hwidth
          simp only [width, hparts, List.any_cons, hplain, Bool.false_or, List.length_cons, hwidth]
          omega

theorem version_of_matchFixed
    {v : Seg} {parts : List String} {binds : Binds} (hv : v.segment = versionPlaceholder)
    (hmatch : matchFixed r spans (segs ++ [v]) parts found = some (tail, binds, none)) :
    exists front last, parts = front ++ last :: tail ∧
      (r.version last = true ∨ (v.segmentClass = .literal ∧ last = versionPlaceholder)) := by
  induction segs generalizing spans parts found with
  | nil =>
      rcases matchFixed_cons hmatch with
        ⟨extra, span, rest, binds', -, -, hparts, hlen, hrest⟩ |
        ⟨got, rest, next, -, hparts, hrest, hread⟩
      · simp only [matchFixed, Option.some.injEq, Prod.mk.injEq] at hrest
        rcases hrest with ⟨rfl, -, hspan⟩
        have hnonempty : span ≠ [] := by
          intro hnil
          rw [hnil, List.length_nil] at hlen
          omega
        have hlast := ((spanRefusal_eq_none_iff span).mp hspan).2 _ (span.getLast_mem hnonempty)
        refine ⟨span.dropLast, span.getLast hnonempty, ?_, Or.inl (version_of_checkSeg hv hlast)⟩
        rw [hparts, List.append_cons, List.dropLast_append_getLast]
      · simp only [matchFixed, Option.some.injEq, Prod.mk.injEq] at hrest
        rcases hrest with ⟨rfl, hnext⟩
        refine ⟨[], got, hparts, ?_⟩
        rcases hread with ⟨hliteral, hsame⟩ | hchecked
        · exact Or.inr ⟨hliteral, hsame.symm.trans hv⟩
        · rw [hnext, eq_comm, Option.or_eq_none_iff] at hchecked
          exact Or.inl (version_of_checkSeg hv hchecked.2)
  | cons seg segs ih =>
      rcases matchFixed_cons hmatch with
        ⟨extra, span, rest, binds', -, -, hparts, -, hrest⟩ |
        ⟨got, rest, next, -, hparts, hrest, -⟩
      · rcases ih hrest with ⟨front, last, hsplit, hlast⟩
        exact ⟨span ++ front, last, by rw [hparts, hsplit, List.append_assoc], hlast⟩
      · rcases ih hrest with ⟨front, last, hsplit, hlast⟩
        exact ⟨got :: front, last, by rw [hparts, hsplit, List.cons_append], hlast⟩

theorem width_of_extraParts
    {parts : List String} {extra : Nat} (hextra : extraParts false segs parts = some extra) :
    parts.length = width (some extra) segs := by
  unfold extraParts at hextra
  simp only [Bool.false_eq_true, if_false] at hextra
  unfold width
  split at hextra
  · rename_i hmulti
    split at hextra
    · cases hextra
    · rename_i hshort
      cases hextra
      simp only [hmulti, if_true, Option.getD_some]
      omega
  · rename_i hsingle
    split at hextra
    · cases hextra
    · rename_i hsame
      simpa [hsingle] using not_not.mp hsame

theorem version_of_matchSegments
    {v : Seg} {parts : List String} {binds : Binds} (hlast : segs.getLast? = some v)
    (hv : v.segment = versionPlaceholder) (hclass : v.segmentClass ≠ .wildcard)
    (hmatch : matchSegments r segs parts = some (binds, none)) :
    isVersioned r parts = true ∨
      (v.segmentClass = .literal ∧ parts.getLast? = some versionPlaceholder) := by
  have hfixed : endsWildcard segs = false := by
    simp [endsWildcard, hlast, hclass]
  simp only [matchSegments, hfixed, Bool.false_eq_true, if_false, Option.bind_eq_some_iff,
    Option.map_eq_some_iff] at hmatch
  rcases hmatch with ⟨extra, hextra, ⟨tail, binds', refusal⟩, hrun, hresult⟩
  -- the segments take every part, so nothing is left to a variadic tail
  have htail : tail = [] := by
    have hwidth := width_of_extraParts hextra
    have hlength := length_of_matchFixed hrun
    exact List.length_eq_zero_iff.mp (by omega)
  subst htail
  simp only [tailRefusal, Prod.mk.injEq] at hresult
  rcases hresult with ⟨-, rfl⟩
  rcases List.getLast?_eq_some_iff.mp hlast with ⟨pre, rfl⟩
  rcases version_of_matchFixed hv hrun with ⟨front, last, hparts, hread⟩
  have hend : parts.getLast? = some last := by
    rw [hparts, List.getLast?_concat]
  rcases hread with hversion | ⟨hliteral, htext⟩
  · exact Or.inl (by simp [isVersioned, hend, hversion])
  · exact Or.inr ⟨hliteral, by rw [hend, htext]⟩

/-!
## The best family

`resolve` keeps one of the readings it was offered.  So what holds of every reading holds of
the hit, and no hit means that no reading fits.
-/

/-- The version segment of a family is of a class that the matcher takes as it is. -/
def LooseVersion (fam : Fam) (parts : List String) : Prop :=
  exists v, fam.segments.getLast? = some v ∧ v.segment = versionPlaceholder ∧
    (v.segmentClass = .wildcard ∨
      (v.segmentClass = .literal ∧ parts.getLast? = some versionPlaceholder))

def VersionKept (r : Rules) (parts : List String) (best : Option Resolved) : Prop :=
  forall hit, best = some hit ->
    hit.fam ∈ r.families ∧
      (hit.refusal = none -> hit.hasVersion = true ->
        isVersioned r parts = true ∨ LooseVersion hit.fam parts)

variable {parts : List String} {best : Option Resolved} {fam : Fam}

theorem offer_kept
    {found : Option (Binds × Option Refusal)} {hasVersion : Bool}
    (hbest : VersionKept r parts best)
    (hfam : fam ∈ r.families)
    (hfound : forall binds, found = some (binds, none) -> hasVersion = true ->
      isVersioned r parts = true ∨ LooseVersion fam parts) :
    VersionKept r parts (offer best fam found hasVersion) := by
  cases found with
  | none => exact hbest
  | some reading =>
      unfold offer
      simp only
      split
      · intro hit hhit
        cases hhit
        refine ⟨hfam, ?_⟩
        intro hclean hversion
        exact hfound reading.1 (by rw [← hclean]) hversion
      · exact hbest

theorem endsVersion_iff :
    fam.endsVersion = true <->
      exists v, fam.segments.getLast? = some v ∧ v.segment = versionPlaceholder := by
  simp [Fam.endsVersion, Option.any_eq_true]

theorem resolveStep_kept
    (hbest : VersionKept r parts best) (hfam : fam ∈ r.families) :
    VersionKept r parts (resolveStep r parts best fam) := by
  unfold resolveStep
  split
  · rename_i hends
    rw [Bool.and_eq_true] at hends
    rcases endsVersion_iff.mp hends.1 with ⟨v, hlast, hv⟩
    refine offer_kept (offer_kept hbest hfam (by simp)) hfam ?_
    intro binds hmatch _
    by_cases hclass : v.segmentClass = .wildcard
    · exact Or.inr ⟨v, hlast, hv, Or.inl hclass⟩
    · rcases version_of_matchSegments hlast hv hclass hmatch with hversion | hliteral
      · exact Or.inl hversion
      · exact Or.inr ⟨v, hlast, hv, Or.inr hliteral⟩
  · rename_i hread
    split
    · refine offer_kept hbest hfam ?_
      intro binds _ hends
      refine Or.inl ?_
      simpa [hends] using hread
    · rename_i hversioned
      simp only [Bool.or_eq_true, Bool.not_eq_true', not_or, Bool.not_eq_false] at hversioned
      split
      · exact offer_kept hbest hfam (by simp [hversioned.2])
      · exact hbest

theorem resolveAsValueStep_kept
    (hbest : VersionKept r parts best) (hfam : fam ∈ r.families) :
    VersionKept r parts (resolveAsValueStep r parts best fam) := by
  unfold resolveAsValueStep
  split
  · exact hbest
  · exact offer_kept hbest hfam (by simp)

theorem versionKept_none : VersionKept r parts none := by
  intro hit hhit
  cases hhit

theorem resolve_kept :
    VersionKept r parts (resolve r parts) := by
  have hread : VersionKept r parts (r.families.foldl (resolveStep r parts) none) :=
    List.foldlRecOn r.families _ versionKept_none
      (fun best hbest fam hfam => resolveStep_kept hbest hfam)
  unfold resolve
  cases hfirst : r.families.foldl (resolveStep r parts) none with
  | some hit =>
      rw [hfirst] at hread
      exact hread
  | none =>
      simp only
      split
      · exact List.foldlRecOn r.families _ versionKept_none
          (fun best hbest fam hfam => resolveAsValueStep_kept hbest hfam)
      · exact versionKept_none

theorem offer_eq_none_iff
    {found : Option (Binds × Option Refusal)} {hasVersion : Bool} :
    offer best fam found hasVersion = none <-> best = none ∧ found = none := by
  cases best <;> cases found <;> simp [offer]
  split <;> simp

theorem step_eq_none_of_foldl
    {step : Option Resolved -> Fam -> Option Resolved} {families : List Fam}
    (hkeep : forall best fam, step best fam = none -> best = none)
    (hnone : families.foldl step best = none) :
    best = none ∧ forall fam, fam ∈ families -> step none fam = none := by
  induction families generalizing best with
  | nil => exact ⟨hnone, by simp⟩
  | cons fam families ih =>
      rcases ih hnone with ⟨hstep, hrest⟩
      have hbest := hkeep best fam hstep
      subst hbest
      refine ⟨rfl, ?_⟩
      intro other hother
      rcases List.mem_cons.mp hother with rfl | hmem
      · exact hstep
      · exact hrest other hmem

theorem best_of_resolveStep
    (hnone : resolveStep r parts best fam = none) :
    best = none := by
  unfold resolveStep at hnone
  split at hnone
  · rw [offer_eq_none_iff, offer_eq_none_iff] at hnone
    exact hnone.1.1
  · split at hnone
    · exact (offer_eq_none_iff.mp hnone).1
    · split at hnone
      · exact (offer_eq_none_iff.mp hnone).1
      · exact hnone

theorem best_of_resolveAsValueStep
    (hnone : resolveAsValueStep r parts best fam = none) :
    best = none := by
  unfold resolveAsValueStep at hnone
  split at hnone
  · exact hnone
  · exact (offer_eq_none_iff.mp hnone).1

theorem matchSegments_of_unresolved
    (hnone : resolve r parts = none) (hfam : fam ∈ r.families) :
    matchSegments r fam.segments parts = none := by
  unfold resolve at hnone
  cases hfirst : r.families.foldl (resolveStep r parts) none with
  | some hit => simp [hfirst] at hnone
  | none =>
      simp only [hfirst] at hnone
      have hstep := (step_eq_none_of_foldl (fun _ _ => best_of_resolveStep) hfirst).2 fam hfam
      unfold resolveStep at hstep
      split at hstep
      · exact (offer_eq_none_iff.mp hstep).2
      · split at hstep
        · exact Option.map_eq_none_iff.mp (offer_eq_none_iff.mp hstep).2
        · -- a versioned input is read as written in the second pass
          rename_i hversioned
          simp only [Bool.or_eq_true, Bool.not_eq_true', not_or, Bool.not_eq_true,
            Bool.not_eq_false] at hversioned
          rw [if_pos hversioned.2] at hnone
          have hvalue :=
            (step_eq_none_of_foldl (fun _ _ => best_of_resolveAsValueStep) hnone).2 fam hfam
          unfold resolveAsValueStep at hvalue
          rw [if_neg (by simp [hversioned.1])] at hvalue
          exact (offer_eq_none_iff.mp hvalue).2

/-!
## A dimension
-/

theorem matchClaimed_family (hit : Resolved) :
    (matchClaimed r parts hit).family = some hit.fam.familyPrefix := by
  unfold matchClaimed
  split_ifs <;> rfl

theorem hasVersion_of_matchClaimed
    {hit : Resolved} (hclean : (matchClaimed r parts hit).refusal = none)
    (hrequired : r.versionRequired = true) (hexempt : hit.fam.familyPrefix ∉ r.exempt) :
    hit.hasVersion = true := by
  unfold matchClaimed at hclean
  split at hclean
  · cases hclean
  · split at hclean
    · cases hclean
    · rename_i hversion
      simpa [hrequired, hexempt] using hversion

theorem exists_last_two
    {parts : List String} (hlen : 2 ≤ parts.length) :
    exists front before last, parts = front ++ [before, last] := by
  rcases List.eq_nil_or_concat parts with rfl | ⟨init, last, rfl⟩
  · simp at hlen
  · rcases List.eq_nil_or_concat init with rfl | ⟨front, before, rfl⟩
    · simp at hlen
    · exact ⟨front, before, last, by simp⟩

section Dimension

variable [Lowercase]

/-- Outside every fence of the table, in its own spelling and folded. -/
structure OutsideFences (r : Rules) (d : String) : Prop where
  nonempty : forall p, p ∈ Text.split ':' d -> p ≠ ""
  notPrivate : Text.startsWith r.privateUse d = false
  unresolved : resolve r (Text.split ':' d) = none
  unresolvedFolded : resolve r ((Text.split ':' d).map Lowercase.toLowercase) = none
  unclaimed : forall fam, fam ∈ r.families ->
    matchSegments r fam.segments (Text.split ':' d) = none ∧
      matchSegments r fam.segments ((Text.split ':' d).map Lowercase.toLowercase) = none
  unfenced : forall stem, stem ∈ r.reservedStems ++ r.closedStems ->
    Text.startsWith stem d = false ∧ Text.startsWith stem (Lowercase.toLowercase d) = false
  versioned : exists front before last,
    Text.split ':' d = front ++ [before, last] ∧
      (r.versionRequired = true -> r.version last = true) ∧ isVersionLike before = false

theorem resolve_of_mutation
    {v : List String} (hnone : detectMalformed r parts false = none) (hv : v ∈ mutations parts) :
    resolve r v = none := by
  unfold detectMalformed at hnone
  have hhit := List.findSome?_eq_none_iff.mp hnone v hv
  simpa [Option.eq_none_iff_forall_ne_some] using hhit

theorem resolve_folded_of_undetected
    (hnone : detectMalformed r parts false = none) (hresolve : resolve r parts = none) :
    resolve r (parts.map Lowercase.toLowercase) = none := by
  by_cases hsame : parts.map Lowercase.toLowercase = parts
  · rw [hsame]
    exact hresolve
  · exact resolve_of_mutation hnone (by simp [mutations, hsame])

variable {d : String}

theorem unfenced_of_checks
    (hfence : ¬ (r.fencedStems.any fun stem => Text.startsWith stem d) = true)
    (hfolded : ¬ (Lowercase.toLowercase d ≠ d ∧
      (r.fencedStems.any fun stem => Text.startsWith stem (Lowercase.toLowercase d)) = true)) :
    forall stem, stem ∈ r.fencedStems ->
      Text.startsWith stem d = false ∧ Text.startsWith stem (Lowercase.toLowercase d) = false := by
  simp only [List.any_eq_true, not_exists, not_and, Bool.not_eq_true] at hfence hfolded
  intro stem hstem
  refine ⟨hfence stem hstem, ?_⟩
  by_cases hsame : Lowercase.toLowercase d = d
  · rw [hsame]
    exact hfence stem hstem
  · exact hfolded hsame stem hstem

theorem matchUnclaimed_clean
    (hclean : (matchUnclaimed r d parts).refusal = none) :
    (matchUnclaimed r d parts).family = none ∧ detectMalformed r parts false = none ∧
      (forall stem, stem ∈ r.fencedStems ->
        Text.startsWith stem d = false ∧ Text.startsWith stem (Lowercase.toLowercase d) = false) ∧
      (r.versionRequired = true -> r.version (parts.getLastD "") = true) ∧
      2 ≤ parts.length ∧ isVersionLike (parts.dropLast.getLastD "") = false := by
  unfold matchUnclaimed at hclean ⊢
  cases hdetect : detectMalformed r parts false with
  | some mutated => simp [hdetect, FamilyMatch.malformedAs] at hclean
  | none =>
      simp only [hdetect] at hclean ⊢
      split at hclean
      · cases hclean
      · rename_i hfence
        rw [if_neg hfence]
        split at hclean
        · cases hclean
        · rename_i hfolded
          rw [if_neg hfolded]
          split at hclean
          · cases hclean
          · rename_i hversion
            rw [if_neg hversion]
            split at hclean
            · cases hclean
            · rename_i htail
              rw [if_neg htail]
              simp only [Bool.or_eq_true, decide_eq_true_eq, not_or, Nat.not_lt,
                Bool.not_eq_true] at htail
              exact ⟨rfl, trivial, unfenced_of_checks hfence hfolded, by simpa using hversion,
                htail⟩

theorem matchFamily_clean
    (hclean : (matchFamily r d).refusal = none) :
    (forall p, p ∈ Text.split ':' d -> p ≠ "") ∧ Text.startsWith r.privateUse d = false ∧
      ((resolve r (Text.split ':' d) = none ∧
          matchFamily r d = matchUnclaimed r d (Text.split ':' d)) ∨
        exists hit, resolve r (Text.split ':' d) = some hit ∧ hit.refusal = none ∧
          matchFamily r d = matchClaimed r (Text.split ':' d) hit) := by
  unfold matchFamily at hclean ⊢
  split at hclean
  · cases hclean
  · rename_i hspace
    rw [if_neg hspace]
    split at hclean
    · cases hclean
    · rename_i hprivate
      rw [if_neg hprivate]
      simp only at hclean ⊢
      split at hclean
      · cases hclean
      · rename_i hempty
        rw [if_neg hempty]
        have hnonempty : forall p, p ∈ Text.split ':' d -> p ≠ "" := by
          intro p hp hnil
          exact hempty (List.any_eq_true.mpr ⟨p, hp, by simp [hnil]⟩)
        refine ⟨hnonempty, by simpa using hprivate, ?_⟩
        cases hresolve : resolve r (Text.split ':' d) with
        | none => exact Or.inl ⟨rfl, rfl⟩
        | some hit =>
            refine Or.inr ⟨hit, rfl, ?_⟩
            simp only [hresolve] at hclean
            cases hrefusal : hit.refusal with
            | none => exact ⟨rfl, by simp [hrefusal]⟩
            | some refusal =>
                simp only [hrefusal, Option.isSome_some, if_true] at hclean
                split at hclean <;> cases hclean

theorem outsideFences_of_unclaimed
    (hnonempty : forall p, p ∈ Text.split ':' d -> p ≠ "")
    (hprivate : Text.startsWith r.privateUse d = false)
    (hresolve : resolve r (Text.split ':' d) = none)
    (hclean : (matchUnclaimed r d (Text.split ':' d)).refusal = none) :
    OutsideFences r d := by
  rcases matchUnclaimed_clean hclean with ⟨-, hdetect, hfenced, hversion, hlen, hbefore⟩
  have hfolded := resolve_folded_of_undetected hdetect hresolve
  rcases exists_last_two hlen with ⟨front, before, last, hparts⟩
  have hlast : (Text.split ':' d).getLastD "" = last := by
    simp [hparts]
  have hprev : (Text.split ':' d).dropLast.getLastD "" = before := by
    simp [hparts, List.dropLast_append_of_ne_nil]
  rw [hlast] at hversion
  rw [hprev] at hbefore
  exact {
    nonempty := hnonempty
    notPrivate := hprivate
    unresolved := hresolve
    unresolvedFolded := hfolded
    unclaimed := fun fam hfam =>
      ⟨matchSegments_of_unresolved hresolve hfam, matchSegments_of_unresolved hfolded hfam⟩
    unfenced := hfenced
    versioned := ⟨front, before, last, hparts, hversion, hbefore⟩ }

/-- Open vocabulary lies outside every fence.  A clean answer under a family that is not
exempt ends in a version where versions are required, unless the family's version segment is
declared a wildcard, or a literal that the input spells out. -/
theorem open_vocabulary_bypasses_no_fence
    (r : Rules) (d : String) :
    ((matchFamily r d).family = none ∧ (matchFamily r d).refusal = none ->
        OutsideFences r d) ∧
      (forall f, (matchFamily r d).family = some f -> (matchFamily r d).refusal = none ->
        r.versionRequired = true -> f ∉ r.exempt ->
          isVersioned r (Text.split ':' d) = true ∨
            exists fam, fam ∈ r.families ∧ fam.familyPrefix = f ∧
              LooseVersion fam (Text.split ':' d)) := by
  constructor
  · intro ⟨hfamily, hclean⟩
    rcases matchFamily_clean hclean with ⟨hnonempty, hprivate, ⟨hresolve, heq⟩ | ⟨hit, -, -, heq⟩⟩
    · rw [heq] at hclean
      exact outsideFences_of_unclaimed hnonempty hprivate hresolve hclean
    · rw [heq, matchClaimed_family] at hfamily
      cases hfamily
  · intro f hfamily hclean hrequired hexempt
    rcases matchFamily_clean hclean with ⟨-, -, ⟨-, heq⟩ | ⟨hit, hresolve, hrefusal, heq⟩⟩
    · rw [heq] at hfamily hclean
      rw [(matchUnclaimed_clean hclean).1] at hfamily
      cases hfamily
    · rw [heq] at hfamily hclean
      rw [matchClaimed_family] at hfamily
      cases hfamily
      have hversion := hasVersion_of_matchClaimed hclean hrequired hexempt
      rcases resolve_kept hit hresolve with ⟨hmem, hkept⟩
      rcases hkept hrefusal hversion with hlast | hloose
      · exact Or.inl hlast
      · exact Or.inr ⟨hit.fam, hmem, rfl, hloose⟩

end Dimension

/-!
### Sample tables
-/

open Reference

def literalSeg (segment : String) : Seg where
  segment := segment
  segmentClass := .literal
  pattern := none
  values := none
  isOpen := false
  multi := false

/-- Versions are required, `capacity:` is reserved, and words are lower-case letters. -/
def tableOf (families : List Fam) : Rules where
  vocab s := s != "" && s.toList.all fun c => 'a' ≤ c && c ≤ 'z'
  privateUse := "x_private:"
  version s := isVersionLike s && Text.startsWith "v" s
  versionRequired := true
  exempt := []
  external := []
  reservedStems := ["capacity:"]
  families := families

def notesFamily (versionClass : SegmentClass) : Fam where
  familyPrefix := "notes:" ++ versionPlaceholder
  segments :=
    [literalSeg "notes",
      { literalSeg versionPlaceholder with segmentClass := versionClass }]
  leaves := []
  leavesClosed := false

theorem weather_outside_fences :
    let r := tableOf [notesFamily .vocab]
    (((matchFamily r "weather:rain:v1").family = none ∧
        (matchFamily r "weather:rain:v1").refusal = none) ∧
      OutsideFences r "weather:rain:v1") ∧
    (matchFamily r "notes:v1").family = some ("notes:" ++ versionPlaceholder) ∧
      (matchFamily r "notes:v1").refusal = none ∧
      (isVersioned r (Text.split ':' "notes:v1") = true ∨
        exists fam, fam ∈ r.families ∧ fam.familyPrefix = "notes:" ++ versionPlaceholder ∧
          LooseVersion fam (Text.split ':' "notes:v1")) := by
  intro r
  have hopen : (matchFamily r "weather:rain:v1").family = none ∧
      (matchFamily r "weather:rain:v1").refusal = none := by
    decide
  have hfamily : (matchFamily r "notes:v1").family = some ("notes:" ++ versionPlaceholder) := by
    decide
  have hclean : (matchFamily r "notes:v1").refusal = none := by
    decide
  refine ⟨⟨hopen, (open_vocabulary_bypasses_no_fence _ _).1 hopen⟩, hfamily, hclean, ?_⟩
  exact (open_vocabulary_bypasses_no_fence r "notes:v1").2 _ hfamily hclean rfl List.not_mem_nil

theorem loose_version_admitted :
    (matchFamily (tableOf [notesFamily .wildcard]) "notes:draft").family =
        some ("notes:" ++ versionPlaceholder) ∧
      (matchFamily (tableOf [notesFamily .wildcard]) "notes:draft").refusal = none ∧
      (tableOf [notesFamily .wildcard]).versionRequired = true ∧
      ("notes:" ++ versionPlaceholder) ∉ (tableOf [notesFamily .wildcard]).exempt ∧
      isVersioned (tableOf [notesFamily .wildcard])
        (Text.split ':' "notes:draft") = false := by
  decide

end Namespace
end CirisPersist.Federation
