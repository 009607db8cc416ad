import CirisPersist.Federation.Delegation.Cycle
import CirisPersist.Federation.Lineage.Chain
import CirisPersist.Federation.ReverseQuorum.Resolve

/-!
# Bounded terms

Delegated power lapses.  The write door refuses an edge that passes on power, or sits in an
affiliation, unless it names an end at most a year after its start.  The walks read the same
term again at their own instant, and the cycle check asks whether it can still be open.  The
three readings share one parsed term, and this module shows that they agree.
-/

namespace CirisPersist.Federation

/-!
## Reading a term
-/

/-- The start of a term: the instant it names, or the one its edge was signed at. -/
def DelegationTerm.startOf (term : DelegationTerm) (row : Attestation) : Instant :=
  term.start.getD row.assertedAt

variable {row : Attestation} {roleTerm : Option Int}

theorem DelegationTerm.ends_in_time
    {term : DelegationTerm} (h : term.boundBreach (some row.assertedAt) roleTerm = none)
    {u : Instant} (hu : u ∈ term.untils) :
    u ≤ term.startOf row + Instant.ofSeconds roleTermCeilingSeconds := by
  have hstart : term.start.or (some row.assertedAt) = some (term.startOf row) := by
    unfold DelegationTerm.startOf
    cases term.start with
    | none => rfl
    | some f => rfl
  unfold DelegationTerm.boundBreach at h
  rw [hstart, Option.bind_some, List.findSome?_eq_none_iff] at h
  have hu' := h u hu
  dsimp only at hu'
  split at hu'
  · cases hu'
  · rename_i hspan
    exact Int.le_add_of_sub_left_le (Int.not_lt.mp hspan)

section Terms

variable [External]

theorem open_of_delegationTermLiveAt
    {t : Instant} {term : DelegationTerm} (hread : DelegationTerm.read row.envelope = .ok term)
    (h : delegationTermLiveAt row t roleTerm = true) :
    (forall f, term.start = some f -> f ≤ t) ∧ forall u, u ∈ term.untils -> t < u := by
  unfold delegationTermLiveAt at h
  simp only [hread] at h
  split at h
  · cases h
  · rename_i hopen
    simp only [Bool.or_eq_true, not_or, Bool.not_eq_true, Option.any_eq_false, List.any_eq_false,
      decide_eq_true_iff, decide_eq_false_iff_not, not_le, not_lt] at hopen
    exact hopen

theorem readTermInstant_of_live
    {t : Instant} (h : delegationTermLiveAt row t roleTerm = true) :
    exists start, readTermInstant row.envelope delegationValidFromField = .ok start ∧
      forall f, start = some f -> f ≤ t := by
  cases hread : DelegationTerm.read row.envelope with
  | error field =>
      unfold delegationTermLiveAt at h
      rw [hread] at h
      cases h
  | ok term =>
      exact ⟨term.start, DelegationTerm.start_of_read hread,
        (open_of_delegationTermLiveAt hread h).1⟩

theorem delegationEdgeLiveAtOrAfter_iff
    (row : Attestation) (now : Instant) :
    delegationEdgeLiveAtOrAfter row now = true <->
      exists t, now ≤ t ∧ (forall x, row.expiresAt = some x -> t < x) ∧
        delegationTermLiveAt row t none = true := by
  constructor
  · intro h
    unfold delegationEdgeLiveAtOrAfter at h
    cases hstart : readTermInstant row.envelope delegationValidFromField with
    | error field =>
        rw [hstart] at h
        cases h
    | ok start =>
        simp only [hstart, Bool.and_eq_true, Option.all_eq_true, decide_eq_true_iff] at h
        refine ⟨_, ?_, h.1, h.2⟩
        cases start with
        | none => exact le_refl now
        | some f => exact le_max_right f now
  · intro h
    rcases h with ⟨t, hnow, hexpires, hlive⟩
    rcases readTermInstant_of_live hlive with ⟨start, hstart, hbegun⟩
    -- the probe is the first instant at which the term can be open, so it is not after `t`
    have hprobe : forall probe, probe ≤ t -> (forall f, start = some f -> f ≤ probe) ->
        (row.expiresAt.all fun x => decide (probe < x)) = true ∧
          delegationTermLiveAt row probe none = true := by
      intro probe hle hfrom
      constructor
      · simp only [Option.all_eq_true, decide_eq_true_iff]
        intro x hx
        exact lt_of_le_of_lt hle (hexpires x hx)
      · refine delegationTermLiveAt_anti hle ?_ hlive
        intro f hf
        exact hfrom f (Except.ok.inj (hstart.symm.trans hf))
    unfold delegationEdgeLiveAtOrAfter
    cases start with
    | none =>
        simp only [hstart, Bool.and_eq_true]
        refine hprobe now hnow ?_
        intro f hf
        cases hf
    | some f =>
        simp only [hstart, Bool.and_eq_true]
        refine hprobe (max f now) (max_le (hbegun f rfl) hnow) ?_
        intro f' hf'
        cases hf'
        exact le_max_left f now

end Terms

/-!
## The record of an affiliation

A community declares itself an affiliation in its policy.  An affiliation may declare a
config with the longest term of a role, in days.
-/

/-- What the model takes from `serde_json`: the text of a value, and the role term of a
typed config record or the error of reading one. -/
class ConfigReader where
  display : Json -> String
  roleTerm : Json -> Except String (Option UInt32)

inductive AffiliationRule where
  | cohortUnknown
  | configMalformed
deriving DecidableEq

def AffiliationRule.token : AffiliationRule -> String
  | cohortUnknown => "cohort_unknown"
  | configMalformed => "config_malformed"

inductive TermRule where
  | missing
  | unreadable
  | breach (b : TermBreach)
deriving DecidableEq

def TermRule.token : TermRule -> String
  | missing => "term_missing"
  | unreadable => "term_unreadable"
  | breach .overCeiling => "over_ceiling"
  | breach .overRoleTerm => "over_role_term"

inductive TermRefusal where
  | invalidArgument (detail : String)
  | directory (detail : String)
  | affiliationConfigInvalid (groupKeyId : String) (rule : AffiliationRule) (detail : String)
  | delegationTermRequired (attestingKeyId attestedKeyId : String) (rule : TermRule)
      (detail : String)
deriving DecidableEq

def TermRefusal.message : TermRefusal -> String
  | invalidArgument detail => "invalid argument: " ++ detail
  | directory detail => detail
  | affiliationConfigInvalid group rule detail =>
      "group " ++ Text.debugStr group ++ ": affiliation record refused (" ++ rule.token ++
        "): " ++ detail
  | delegationTermRequired attesting attested rule detail =>
      "delegates_to " ++ Text.debugStr attesting ++ " -> " ++ Text.debugStr attested ++
        " refused delegation_term_required (" ++ rule.token ++ "): " ++ detail

def policyCohortField :=
  "cohort_scope"

def policyAffiliationConfigField :=
  "affiliation_config"

section Record

variable [ConfigReader]

def declaredCohort (c : Community) : Except TermRefusal Cohort :=
  match c.policyBlob.bind fun policy => policy.get? policyCohortField with
  | none => .ok .community
  | some v =>
      if v.asStr = some "community" then
        .ok .community
      else if v.asStr = some "affiliations" then
        .ok .affiliations
      else
        .error (.affiliationConfigInvalid c.communityKeyId
          .cohortUnknown
          ("policy_blob." ++ policyCohortField ++ " = " ++ ConfigReader.display v ++
            "; expected \"community\" or \"affiliations\""))

def affiliationRoleTermOf (c : Community) : Except TermRefusal (Option UInt32) :=
  match c.policyBlob.bind fun policy => policy.get? policyAffiliationConfigField with
  | none => .ok none
  | some v =>
      (ConfigReader.roleTerm v).mapError fun e =>
        .affiliationConfigInvalid c.communityKeyId .configMalformed e

def roleTermSeconds (c : Community) : Except TermRefusal (Option Int) := do
  let cohort ← declaredCohort c
  if cohort ≠ .affiliations then
    .ok none
  else
    let days ← affiliationRoleTermOf c
    .ok (days.map fun t => min ((t.toNat : Int) * 86400) roleTermCeilingSeconds)

end Record

/-!
## The term of a gated edge
-/

/-- The affiliation whose hierarchy an edge sits in, with its bound on terms. -/
structure HierarchyOf where
  communityKeyId : String
  roleTermSeconds : Option Int

section Check

variable [External]

def termHolder : Option HierarchyOf -> String
  | none => "a term-bearing edge"
  | some h => "an edge in affiliation " ++ h.communityKeyId ++ "'s hierarchy"

def checkTerm (row : Attestation) (hierarchy : Option HierarchyOf) : Except TermRefusal Unit :=
  let refuse (rule : TermRule) (detail : String) : Except TermRefusal Unit :=
    .error
      (.delegationTermRequired row.attestingKeyId row.attestedKeyId rule detail)
  let roleTerm := hierarchy.bind HierarchyOf.roleTermSeconds
  match DelegationTerm.read row.envelope with
  | .error field =>
      refuse .unreadable (field ++ " is not an RFC 3339 instant")
  | .ok term =>
      if term.untils = [] then
        refuse .missing (termHolder hierarchy ++ " names no " ++ delegationValidUntilField ++
          ": a perpetual edge is refused (CC 2.4, CC 4.4.3.2.8 C)")
      else
        match term.boundBreach (some row.assertedAt) roleTerm with
        | some (b, span) =>
            let bound := (roleTerm.filter fun _ => decide (b = .overRoleTerm)).getD
              roleTermCeilingSeconds
            refuse (.breach b) (termHolder hierarchy ++ "'s term runs " ++
              (span.tdiv (Instant.ofSeconds 1)).repr ++ "s from its start (" ++
              (if term.start.isSome then delegationValidFromField else "the signed asserted_at") ++
              "); the bound is " ++ bound.repr ++ "s")
        | none => .ok ()

theorem bounded_of_checkTerm
    {hierarchy : Option HierarchyOf} (h : checkTerm row hierarchy = .ok ()) :
    exists term, DelegationTerm.read row.envelope = .ok term ∧ term.untils ≠ [] ∧
      forall u, u ∈ term.untils ->
        u ≤ term.startOf row + Instant.ofSeconds roleTermCeilingSeconds := by
  unfold checkTerm at h
  cases hread : DelegationTerm.read row.envelope with
  | error field =>
      rw [hread] at h
      cases h
  | ok term =>
      simp only [hread] at h
      split at h
      · cases h
      · rename_i hends
        split at h
        · cases h
        · rename_i hbreach
          exact ⟨term, rfl, hends, fun u hu => DelegationTerm.ends_in_time hbreach hu⟩

end Check

/-!
## The gate
-/

def ownerBindingDimension :=
  "ownership:responsible_party:node:v1"

def ownerBindingPurpose :=
  "owner_binding"

def isOwnerBindingEnvelope (envelope : Json) : Bool :=
  envelope.getStr? "dimension" == some ownerBindingDimension ||
    envelope.getStr? "delegation_purpose" == some ownerBindingPurpose

/-- How the directory answers for a community: a failed read, or the record if it is held. -/
abbrev CommunityLookup :=
  String -> Except String (Option Community)

section Gate

variable [ConfigReader]

def inHierarchy (lookupCommunity : CommunityLookup) (envelope : Json) :
    Except TermRefusal (Option HierarchyOf) := do
  let target ← (envelopeCohortTarget envelope).mapError .invalidArgument
  match target with
  | none => .ok none
  | some named =>
      let held ← (lookupCommunity named).mapError .directory
      match held with
      | none => .ok none
      | some c =>
          let cohort ← declaredCohort c
          if cohort = .affiliations then
            let roleTerm ← roleTermSeconds c
            .ok (some { communityKeyId := c.communityKeyId, roleTermSeconds := roleTerm })
          else
            .ok none

variable [External]

def checkDelegationTermAdmission (lookupCommunity : CommunityLookup) (row : Attestation) :
    Except TermRefusal Unit :=
  if !row.isDelegation || isTrustPlaneEdge row || isOwnerBindingEnvelope row.envelope then
    .ok ()
  else do
    let hierarchy ← inHierarchy lookupCommunity row.envelope
    if !isTermBearingEdge row.envelope && hierarchy.isNone then
      .ok ()
    else
      checkTerm row hierarchy

def NamesHeldAffiliation (lookupCommunity : CommunityLookup) (row : Attestation) : Prop :=
  exists named c, envelopeCohortTarget row.envelope = .ok (some named) ∧
    lookupCommunity named = .ok (some c) ∧
    declaredCohort c = .ok .affiliations

theorem checkTerm_of_admitted
    {lookupCommunity : CommunityLookup} (hdelegates : row.isDelegation = true)
    (hgated : isTermBearingEdge row.envelope = true ∨ NamesHeldAffiliation lookupCommunity row)
    (htrust : isTrustPlaneEdge row = false) (howner : isOwnerBindingEnvelope row.envelope = false)
    (h : checkDelegationTermAdmission lookupCommunity row = .ok ()) :
    exists hierarchy, checkTerm row hierarchy = .ok () := by
  unfold checkDelegationTermAdmission at h
  rw [hdelegates, htrust, howner] at h
  cases hh : inHierarchy lookupCommunity row.envelope with
  | error e =>
      rw [hh] at h
      cases h
  | ok hierarchy =>
      have hreach : (!isTermBearingEdge row.envelope && hierarchy.isNone) = false := by
        rcases hgated with hbearing | ⟨named, c, htarget, hheld, hcohort⟩
        · rw [hbearing]
          rfl
        · unfold inHierarchy at hh
          rw [htarget] at hh
          cases hrole : roleTermSeconds c with
          | error e => simp [hheld, hcohort, hrole, Except.mapError, bind, Except.bind] at hh
          | ok roleTerm =>
              simp only [hheld, hcohort, hrole, Except.mapError, bind, Except.bind, if_true,
                Except.ok.injEq] at hh
              rw [← hh, Option.isNone_some, Bool.and_false]
      simp only [hh, bind, Except.bind, hreach] at h
      exact ⟨hierarchy, h⟩

/-- Delegated power has a bounded term: an admitted edge that must have a term names an end,
and a walk that admits the edge reads it inside a term of at most a year.  The cycle check's
one probe asks whether any later instant is inside the term. -/
theorem delegated_power_has_bounded_term
    (lookupCommunity : CommunityLookup) (row : Attestation) (hdelegates : row.isDelegation = true) :
    ((isTermBearingEdge row.envelope = true ∨ NamesHeldAffiliation lookupCommunity row) ->
      isTrustPlaneEdge row = false -> isOwnerBindingEnvelope row.envelope = false ->
      checkDelegationTermAdmission lookupCommunity row = Except.ok () ->
      forall (lens : DelegationWalkLens) (t : Instant), lens.asOf = some t ->
        lens.admitsEdge row = true ->
        exists term, DelegationTerm.read row.envelope = Except.ok term ∧ term.untils ≠ [] ∧
          term.start.getD row.assertedAt ≤ t ∧
          forall u, u ∈ term.untils ->
            t < u ∧ u ≤ term.start.getD row.assertedAt + Instant.ofSeconds (365 * 86400)) ∧
    forall now : Instant,
      (delegationEdgeLiveAtOrAfter row now = true <->
        exists t, now ≤ t ∧ (forall x, row.expiresAt = some x -> t < x) ∧
          delegationTermLiveAt row t none = true) := by
  refine ⟨?_, delegationEdgeLiveAtOrAfter_iff row⟩
  intro hgated htrust howner hadmitted lens t hasOf hadmits
  rcases checkTerm_of_admitted hdelegates hgated htrust howner hadmitted with ⟨hierarchy, hcheck⟩
  rcases bounded_of_checkTerm hcheck with ⟨term, hread, hends, hbound⟩
  have hat : lens.admitsAt row t = true := by
    unfold DelegationWalkLens.admitsEdge at hadmits
    rw [hasOf, Option.all_some, Bool.and_eq_true] at hadmits
    exact hadmits.1
  simp only [DelegationWalkLens.admitsAt, Bool.and_eq_true, decide_eq_true_iff] at hat
  have hopen := open_of_delegationTermLiveAt hread hat.2
  refine ⟨term, hread, hends, ?_, fun u hu => ⟨hopen.2 u hu, hbound u hu⟩⟩
  cases hstart : term.start with
  | none => exact hat.1.1
  | some f => exact hopen.1 f hstart

end Gate

namespace Dated

scoped instance external : External :=
  { Reference.external with
    parseRfc3339 := fun s =>
      if s = "2027-03-01T00:00:00Z" then some (Instant.ofSeconds 1803859200) else none }

scoped instance configReader : ConfigReader where
  display := fun _ => ""
  roleTerm := fun _ => .ok none

end Dated

def termedGrant : Attestation :=
  { sampleGrant "termed" "issuer" "deputy" 1792800000 false with
    envelope := .obj [("scope", .str "moderate"),
      ("delegation_valid_until", .str "2027-03-01T00:00:00Z")] }

open Dated in
theorem termedGrant_bounded :
    checkDelegationTermAdmission (fun _ => .ok none) termedGrant = .ok () ∧
      exists term, DelegationTerm.read termedGrant.envelope = .ok term ∧ term.untils ≠ [] ∧
        term.start.getD termedGrant.assertedAt ≤ Instant.ofSeconds 1800000000 ∧
        forall u, u ∈ term.untils ->
          Instant.ofSeconds 1800000000 < u ∧
            u ≤ term.start.getD termedGrant.assertedAt + Instant.ofSeconds (365 * 86400) := by
  have hadmitted : checkDelegationTermAdmission (fun _ => .ok none) termedGrant =
      .ok () := by
    decide
  have hbounded := (delegated_power_has_bounded_term (fun _ => .ok none) termedGrant
    (by decide)).1
  exact ⟨hadmitted, hbounded (Or.inl (by decide)) (by decide) (by decide) hadmitted
    { DelegationWalkLens.default with asOf := some (Instant.ofSeconds 1800000000) }
    (Instant.ofSeconds 1800000000) rfl (by decide)⟩

end CirisPersist.Federation
