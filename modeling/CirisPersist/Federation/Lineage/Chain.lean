import CirisPersist.Federation.Roster.State
import CirisPersist.Library.Expiring

/-!
# The chain of a trust-root community

A trust-root community is born by a quorum of the accord and changes only by its
founders.  Its row carries every version before it, so that a node can walk the
chain: the birth first, then each amendment against the versions it follows.
-/

namespace CirisPersist.Federation

/-!
## Records
-/

structure Community where
  communityKeyId : String
  communityName : String
  members : List CommunityMember
  foundedAt : Instant
  consensusProtocol : String
  policyBlob : Option Json
  prevHeadDigest : String
  charterDigest : String
deriving DecidableEq

structure ThresholdSignature where
  memberId : String
  ed25519SignatureBase64 : String
  mldsa65SignatureBase64 : Option String
deriving DecidableEq

structure GroupSupersedeProof where
  priorPersistRowHash : String
  changeEnvelope : Json
  quorumSignatures : List ThresholdSignature
deriving DecidableEq

structure RosterCosignature where
  authorityKeyId : String
  scrubSignatureClassical : String
  scrubSignaturePqc : Option String
deriving DecidableEq

/-- A signed community as it sits in a chain, with no lineage of its own. -/
structure Version where
  community : Community
  authorityKeyId : String
  scrubSignatureClassical : String
  scrubSignaturePqc : Option String
  supersedeProof : Option GroupSupersedeProof
  cosignatures : List RosterCosignature
deriving DecidableEq

/-- The lineage holds the versions before this one, oldest first. -/
structure SignedCommunity extends Version where
  lineage : List Version
deriving DecidableEq

structure KeyRecord where
  keyId : String
  pubkeyEd25519Base64 : String
  pubkeyMlDsa65Base64 : Option String
  identityType : List String
  validFrom : Instant
  validUntil : Option Instant
  persistRowHash : String
deriving DecidableEq

/-- The content hash of a record and the bytes a change envelope is signed over, both
made of canonical JSON. -/
class LineageCodec where
  rowHash : Community -> String
  signingEnvelope : Community -> Json
  signingBytes : Json -> Option String

inductive ChainError where
  | subkindNotInfrastructure (id : String)
  | basisNotFounders (id : String) (basis : Option String)
  | protocolNotQuorum (id protocol : String)
  | notEntrenched (id : String)
  | noFounder (id : String)
  | gradeDropped (id : String)
  | protocolChanged (id prior next : String)
  | emptyChain
  | moreThanOneCommunity (id : String)
  | birthCarriesProof (id : String)
  | birthFounderNotEligible (id founder : String)
  | consensusInsufficient (groupKeyId offeredAuthorityKeyId : String)
  | needsFoundersQuorum (id : String)
  | proofNamesOtherVersion (id : String)
  | envelopeNamesOtherGroup (named groupKeyId : String)
  | envelopeProtocolDiffers (named protocol : String)
  | envelopeRosterDiffers
  | envelopeFoundersDiffer (id : String)
  | envelopeContentDiffers (id : String)
  | noAmendedAt (id : String)
  | amendedAtOutOfRange (id : String) (amendedAt floor : Instant)
  | envelopeNotSignable
  | authorityNotCounted (id authorityKeyId : String)
  | versionNotAdmitted (id authorityKeyId : String)
deriving DecidableEq

def ChainError.rule : ChainError -> Option String
  | subkindNotInfrastructure _ => some "subkind_not_infrastructure"
  | basisNotFounders _ _ => some "admission_quorum_basis_not_founders"
  | protocolNotQuorum _ _ => some "protocol_not_quorum_m_of_n"
  | notEntrenched _ => some "protocol_not_entrenched"
  | noFounder _ => some "no_founder"
  | gradeDropped _ | protocolChanged _ _ _ => some "grade_changed"
  | birthFounderNotEligible _ _ => some "founder_not_conferred"
  | consensusInsufficient _ _ => some "roster_consensus_insufficient"
  | moreThanOneCommunity _ | birthCarriesProof _ | needsFoundersQuorum _
  | proofNamesOtherVersion _ | envelopeFoundersDiffer _ | envelopeContentDiffers _
  | noAmendedAt _ | amendedAtOutOfRange _ _ _ | authorityNotCounted _ _ =>
      some "trust_root_chain"
  | emptyChain | envelopeNamesOtherGroup _ _ | envelopeProtocolDiffers _ _
  | envelopeRosterDiffers | envelopeNotSignable | versionNotAdmitted _ _ => none

namespace Lineage

open Checks Expiring

/-!
## The shape of a trust root
-/

def cirisCanonicalCommunityKeyId : String :=
  "ciris-canonical"

def admissionQuorumBasisFounders : String :=
  "founders"

def infrastructureConstraint (c : Community) : Option Json :=
  (c.policyBlob.bind fun b => b.get? "cohort_subkind_payload").bind fun p =>
    p.get? "infrastructure_constraint"

def isTrustRootGrade (c : Community) : Bool :=
  decide (c.communityKeyId = cirisCanonicalCommunityKeyId) ||
    (infrastructureConstraint c).isSome

def policyStr (c : Community) (field : String) : Option String :=
  c.policyBlob.bind fun b => b.getStr? field

def declaresEntrenched (c : Community) : Bool :=
  decide ((c.policyBlob.bind fun b => b.get? "consensus_protocol_entrenched") =
    some (.bool true))

def founders (c : Community) : List String :=
  (c.members.filter CommunityMember.isFounder).map CommunityMember.keyId

/-- `quorum:M/N` with counts of machine width. -/
def parseQuorum (protocol : String) : Option (Nat × Nat) := do
  let rest ← Text.stripPrefix ConsensusProtocol.quorumPrefix protocol
  let (m, n) ← Text.splitOnce "/" rest
  let m ← Text.parseUnsigned (2 ^ 64) m
  let n ← Text.parseUnsigned (2 ^ 64) n
  some (m, n)

def checkTrustRootShape (c : Community) : Except ChainError Unit := do
  let id := c.communityKeyId
  require (policyStr c "cohort_subkind" == some cohortSubkindInfrastructure)
    (.subkindNotInfrastructure id)
  let basis := (infrastructureConstraint c).bind fun v => v.getStr? "admission_quorum_basis"
  require (basis == some admissionQuorumBasisFounders) (.basisNotFounders id basis)
  require ((parseQuorum c.consensusProtocol).any fun mn => decide (1 ≤ mn.1 ∧ mn.1 ≤ mn.2))
    (.protocolNotQuorum id c.consensusProtocol)
  require (declaresEntrenched c) (.notEntrenched id)
  require (!(founders c).isEmpty) (.noFounder id)

/-- An amendment keeps the grade, the shape and the entrenched protocol. -/
def checkAmendmentImmutables (prior new : Community) : Except ChainError Unit := do
  let id := new.communityKeyId
  require (isTrustRootGrade new) (.gradeDropped id)
  checkTrustRootShape new
  require (decide (new.consensusProtocol = prior.consensusProtocol))
    (.protocolChanged id prior.consensusProtocol new.consensusProtocol)

/-!
## Change envelopes
-/

def nextPersistRowHash : String :=
  "next_persist_row_hash"

def amendedAtField : String :=
  "amended_at"

def amendedAtSkewSecs : Int :=
  60

def envelopeMembers (changeEnvelope : Json) : List Json :=
  ((changeEnvelope.get? "members").bind Json.asArray).getD []

def envelopeFounders (changeEnvelope : Json) : Finset String :=
  ((envelopeMembers changeEnvelope).filter fun m =>
    m.getStr? "role" == some memberRoleFounder).filterMap (fun m => m.getStr? "key_id")
      |>.toFinset

def assertChangeEnvelopeMatches (groupKeyId : String) (newMemberKeyIds : Finset String)
    (newConsensusProtocol : String) (changeEnvelope : Json) : Except ChainError Unit := do
  let envKey := (changeEnvelope.getStr? "family_key_id").getD ""
  require (decide (envKey = groupKeyId)) (.envelopeNamesOtherGroup envKey groupKeyId)
  let envCp := (changeEnvelope.getStr? "consensus_protocol").getD ""
  require (decide (envCp = newConsensusProtocol))
    (.envelopeProtocolDiffers envCp newConsensusProtocol)
  let envMembers :=
    ((envelopeMembers changeEnvelope).filterMap fun m => m.getStr? "key_id").toFinset
  require (decide (envMembers = newMemberKeyIds)) .envelopeRosterDiffers

/-!
## Instants along a chain
-/

section Instants

variable [External]

def linkInstant (v : Version) : Option Instant :=
  (v.supersedeProof.bind fun p => p.changeEnvelope.getStr? amendedAtField).bind
    External.parseRfc3339

def headInstant (v : Version) : Instant :=
  (linkInstant v).getD v.community.foundedAt

def seatedFrom (founder : String) : Instant -> Version -> List Version -> Instant
  | since, _, [] => since
  | since, prior, next :: rest =>
      let seated := founder ∈ founders next.community ∧ founder ∉ founders prior.community
      seatedFrom founder (if seated then (linkInstant next).getD since else since) next rest

def seatedSince (chain : List Version) (founder : String) : Instant :=
  match chain with
  | [] => External.minUtc
  | birth :: rest => seatedFrom founder birth.community.foundedAt birth rest

end Instants

/-!
## Walking a chain
-/

/-- What a walk asks of the node: who counts as a founder at an instant, or now; whether
a birth has the accord's quorum now; the key records and signature checks. -/
structure ChainReads where
  founderCounts : String -> String -> Option Instant -> Instant ->
    Judged Instant ChainError Bool
  accordQuorumMet : Version -> Judged Instant ChainError Bool
  keyRecord : String -> Option KeyRecord
  verifiesSignature : String -> KeyRecord -> ThresholdSignature -> Bool
  nodeBearingAt : String -> Instant -> Bool
  versionAdmitted : Version -> Bool

section Walk

variable (W : Type) [RubricNum W] [External] [LineageCodec] (reads : ChainReads)

def countSigners (id : String) (chain : List Version) (priorFounders : List String)
    (amendedAt : Instant) (bytes : String) :
    List ThresholdSignature -> Finset String -> Judged Instant ChainError (Finset String)
  | [], signers => pure signers
  | sig :: rest, signers =>
      if sig.memberId ∉ priorFounders ∨ sig.memberId ∈ signers then
        countSigners id chain priorFounders amendedAt bytes rest signers
      else do
        let counts ← reads.founderCounts id sig.memberId (some amendedAt)
          (seatedSince chain sig.memberId)
        let verified := (reads.keyRecord sig.memberId).any fun record =>
          reads.verifiesSignature bytes record sig
        countSigners id chain priorFounders amendedAt bytes rest
          (if counts && verified then insert sig.memberId signers else signers)

/-- A member keeps its seat unless it is a founder that does not count. -/
def keepsSeat (id : String) (chain : List Version) (amendedAt : Instant)
    (m : CommunityMember) : Judged Instant ChainError Bool :=
  if m.isFounder then
    reads.founderCounts id m.keyId (some amendedAt) (seatedSince chain m.keyId)
  else
    pure true

def linkSeats (id : String) (chain : List Version) (amendedAt : Instant) :
    List CommunityMember -> Judged Instant ChainError (List Seat)
  | [] => pure []
  | m :: rest => do
      let seated ← keepsSeat reads id chain amendedAt m
      let seats ← linkSeats id chain amendedAt rest
      pure (if seated then
        ⟨m.keyId, m.role, reads.nodeBearingAt m.keyId amendedAt⟩ :: seats
      else
        seats)

def checkAmendedAt (id : String) (amendedAt floor : Instant) :
    Judged Instant ChainError Unit :=
  let skew := Instant.ofSeconds amendedAtSkewSecs
  Judged.withNow fun now => do
    Judged.boundAll [amendedAt - skew]
    Judged.lift (require (!(decide (amendedAt < floor) || decide (now + skew < amendedAt)))
      (.amendedAtOutOfRange id amendedAt floor))

def verifyFoundersLink (chain : List Version) (next : Version) :
    Judged Instant ChainError Instant := do
  let prior ← Judged.lift (orRefuse chain.getLast? .emptyChain)
  let id := next.community.communityKeyId
  let proof ← Judged.lift (orRefuse next.supersedeProof (.needsFoundersQuorum id))
  Judged.lift (require
    (decide (proof.priorPersistRowHash = LineageCodec.rowHash prior.community))
    (.proofNamesOtherVersion id))
  Judged.lift (checkAmendmentImmutables prior.community next.community)
  Judged.lift (assertChangeEnvelopeMatches id
    (next.community.members.map CommunityMember.keyId).toFinset
    next.community.consensusProtocol proof.changeEnvelope)
  Judged.lift (require
    (decide (envelopeFounders proof.changeEnvelope = (founders next.community).toFinset))
    (.envelopeFoundersDiffer id))
  Judged.lift (require
    (proof.changeEnvelope.getStr? nextPersistRowHash ==
      some (LineageCodec.rowHash next.community))
    (.envelopeContentDiffers id))
  let amendedAt ← Judged.lift (orRefuse (linkInstant next) (.noAmendedAt id))
  checkAmendedAt id amendedAt (headInstant prior)
  let bytes ← Judged.lift (orRefuse (LineageCodec.signingBytes proof.changeEnvelope)
    .envelopeNotSignable)
  let signers ← countSigners reads id chain (founders prior.community) amendedAt bytes
    proof.quorumSignatures ∅
  let seats ← linkSeats reads id chain amendedAt prior.community.members
  let verdict := evaluate W {
    protocol := prior.community.consensusProtocol
    subkind := some cohortSubkindInfrastructure
    policyBlob := prior.community.policyBlob
    roster := seats
    signers := signers
    direction := .add
    subject := none }
  Judged.lift (require verdict.admits (.consensusInsufficient id next.authorityKeyId))
  Judged.lift (require (decide (next.authorityKeyId ∈ signers))
    (.authorityNotCounted id next.authorityKeyId))
  Judged.lift (require (reads.versionAdmitted next)
    (.versionNotAdmitted id next.authorityKeyId))
  pure amendedAt

def verifyLinks : List Version -> List Version -> Judged Instant ChainError Unit
  | _, [] => pure ()
  | before, next :: rest => do
      let _ ← verifyFoundersLink W reads before next
      verifyLinks (before ++ [next]) rest

def verifyLinksFrom (chain : List Version) (start : Nat) : Judged Instant ChainError Unit :=
  verifyLinks W reads (chain.take (start + 1)) (chain.drop (start + 1))

def verifyChain (chain : List Version) : Judged Instant ChainError Unit := do
  let birth ← Judged.lift (orRefuse chain.head? .emptyChain)
  let id := birth.community.communityKeyId
  Judged.lift (require (!chain.any fun v => decide (v.community.communityKeyId ≠ id))
    (.moreThanOneCommunity id))
  Judged.lift (require birth.supersedeProof.isNone (.birthCarriesProof id))
  Judged.lift (checkTrustRootShape birth.community)
  Judged.forEach (fun f => do
      let counts ← reads.founderCounts id f (some birth.community.foundedAt)
        birth.community.foundedAt
      Judged.lift (require counts (.birthFounderNotEligible id f)))
    (founders birth.community)
  let met ← reads.accordQuorumMet birth
  Judged.lift (require met (.consensusInsufficient id birth.authorityKeyId))
  verifyLinksFrom W reads chain 0

/-!
## Links that verify
-/

open Judged

variable {W reads}

theorem proof_of_verifyFoundersLink
    {chain : List Version} {next : Version} {now amendedAt : Instant}
    (h : (verifyFoundersLink W reads chain next).outcome now = .ok amendedAt) :
    exists prior proof, chain.getLast? = some prior ∧ next.supersedeProof = some proof ∧
      proof.priorPersistRowHash = LineageCodec.rowHash prior.community := by
  unfold verifyFoundersLink at h
  rcases outcome_bind_eq_ok_iff.mp h with ⟨prior, hprior, h⟩
  rcases outcome_bind_eq_ok_iff.mp h with ⟨proof, hproof, h⟩
  rcases outcome_bind_eq_ok_iff.mp h with ⟨_, hnames, _⟩
  rw [outcome_lift] at hprior hproof hnames
  exact ⟨prior, proof, orRefuse_eq_ok_iff.mp hprior, orRefuse_eq_ok_iff.mp hproof,
    of_decide_eq_true (require_eq_ok_iff.mp hnames)⟩

theorem verifyLinks_eq_ok_iff
    {rest : List Version} {now : Instant} :
    forall before, (verifyLinks W reads before rest).outcome now = .ok () <->
      forall mid v post, rest = mid ++ v :: post ->
        exists amendedAt,
          (verifyFoundersLink W reads (before ++ mid) v).outcome now = .ok amendedAt := by
  induction rest with
  | nil =>
      intro before
      refine ⟨fun _ mid v post h => ?_, fun _ => rfl⟩
      exact absurd h.symm (List.append_ne_nil_of_right_ne_nil _ (List.cons_ne_nil _ _))
  | cons next rest ih =>
      intro before
      rw [verifyLinks, outcome_bind_eq_ok_iff]
      constructor
      · rintro ⟨amendedAt, hlink, hrest⟩ mid v post hsplit
        cases mid with
        | nil =>
            cases hsplit
            exact ⟨amendedAt, by rwa [List.append_nil]⟩
        | cons m mid =>
            cases hsplit
            have hv := (ih (before ++ [next])).mp hrest mid v post rfl
            rwa [List.append_assoc] at hv
      · intro h
        rcases h [] next rest rfl with ⟨amendedAt, hlink⟩
        rw [List.append_nil] at hlink
        refine ⟨amendedAt, hlink, (ih (before ++ [next])).mpr fun mid v post hsplit => ?_⟩
        have hv := h (next :: mid) v post (by rw [hsplit]; rfl)
        rwa [List.append_assoc]

end Walk

/-!
## Walks that keep their answers
-/

section Keeps

/-- Two nodes answer alike about one community in a window, as far as the versions of a
chain ask. -/
structure ChainReads.Keeps (w : Judged.Window Instant) (now : Instant) (id : String)
    (chain : List Version) (reads reads' : ChainReads) : Prop where
  founderCounts : forall v m at? since, v ∈ chain -> m ∈ v.community.members ->
    Judged.Keeps w now (reads.founderCounts id m.keyId at? since)
      (reads'.founderCounts id m.keyId at? since)
  accordQuorumMet : forall v, v ∈ chain ->
    Judged.Keeps w now (reads.accordQuorumMet v) (reads'.accordQuorumMet v)
  keyRecord : forall v m, v ∈ chain -> m ∈ v.community.members ->
    reads'.keyRecord m.keyId = reads.keyRecord m.keyId
  verifiesSignature : reads'.verifiesSignature = reads.verifiesSignature
  nodeBearingAt : forall v m t, v ∈ chain -> m ∈ v.community.members ->
    reads'.nodeBearingAt m.keyId t = reads.nodeBearingAt m.keyId t
  versionAdmitted : forall v, v ∈ chain -> reads'.versionAdmitted v = reads.versionAdmitted v

theorem mem_founders_iff
    {c : Community} {f : String} :
    f ∈ founders c <-> exists m, m ∈ c.members ∧ m.isFounder = true ∧ m.keyId = f := by
  simp [founders, and_assoc]

open Judged

theorem keeps_checkAmendedAt
    {w : Judged.Window Instant} {now : Instant} (id : String) (amendedAt floor : Instant) :
    Judged.Keeps w now (checkAmendedAt id amendedAt floor) (checkAmendedAt id amendedAt floor) := by
  refine keeps_withNow_boundAll fun t hle hpassed => ?_
  have hskew := hpassed (amendedAt - Instant.ofSeconds amendedAtSkewSecs) List.mem_cons_self
  have hsame : t + Instant.ofSeconds amendedAtSkewSecs < amendedAt <->
      now + Instant.ofSeconds amendedAtSkewSecs < amendedAt := by
    constructor
    · exact fun ht => lt_of_le_of_lt (Int.add_le_add_right hle _) ht
    · exact fun hnow => Int.add_lt_of_lt_sub_right (hskew (Int.lt_sub_right_of_add_lt hnow))
  rw [decide_eq_decide.mpr hsame]

variable [External] {w : Judged.Window Instant} {now : Instant} {id : String}
  {all : List Version} {reads reads' : ChainReads}

variable {prior : Version}

theorem keeps_countSigners
    (h : reads.Keeps w now id all reads') (hprior : prior ∈ all) (chain : List Version)
    (amendedAt : Instant) (bytes : String) (sigs : List ThresholdSignature) :
    forall signers,
      Judged.Keeps w now
        (countSigners reads id chain (founders prior.community) amendedAt bytes sigs signers)
        (countSigners reads' id chain (founders prior.community) amendedAt bytes sigs signers) := by
  induction sigs with
  | nil =>
      intro signers
      exact keeps_pure signers
  | cons sig sigs ih =>
      intro signers
      rw [countSigners, countSigners]
      split
      · exact ih signers
      · rename_i hasked
        rcases mem_founders_iff.mp (not_not.mp (not_or.mp hasked).1) with ⟨m, hm, _, hkey⟩
        rw [← hkey, h.keyRecord prior m hprior hm, h.verifiesSignature]
        exact keeps_bind (h.founderCounts prior m _ _ hprior hm) fun _ _ => ih _

theorem keeps_keepsSeat
    (h : reads.Keeps w now id all reads') (hprior : prior ∈ all) {m : CommunityMember}
    (hm : m ∈ prior.community.members) (chain : List Version) (amendedAt : Instant) :
    Judged.Keeps w now (keepsSeat reads id chain amendedAt m)
      (keepsSeat reads' id chain amendedAt m) := by
  unfold keepsSeat
  split
  · exact h.founderCounts prior m _ _ hprior hm
  · exact keeps_pure true

theorem keeps_linkSeats
    (h : reads.Keeps w now id all reads') (hprior : prior ∈ all) (chain : List Version)
    (amendedAt : Instant) {members : List CommunityMember}
    (hmembers : members ⊆ prior.community.members) :
    Judged.Keeps w now (linkSeats reads id chain amendedAt members)
      (linkSeats reads' id chain amendedAt members) := by
  induction members with
  | nil => exact keeps_pure []
  | cons m members ih =>
      have hm := hmembers List.mem_cons_self
      rw [linkSeats, linkSeats, h.nodeBearingAt prior m _ hprior hm]
      refine keeps_bind (keeps_keepsSeat h hprior hm chain amendedAt) fun _ _ => ?_
      exact keeps_bind (ih fun _ hx => hmembers (List.mem_cons_of_mem _ hx)) fun _ _ =>
        keeps_pure _

variable {W : Type} [RubricNum W] [LineageCodec]

theorem keeps_verifyFoundersLink
    (h : reads.Keeps w now id all reads') {chain : List Version} {next : Version}
    (hchain : chain ⊆ all) (hnext : next ∈ all) (hid : next.community.communityKeyId = id) :
    Judged.Keeps w now (verifyFoundersLink W reads chain next)
      (verifyFoundersLink W reads' chain next) := by
  unfold verifyFoundersLink
  rw [hid]
  refine keeps_bind (keeps_lift _) fun prior hlast => ?_
  have hprior := hchain (List.mem_of_getLast? (orRefuse_eq_ok_iff.mp hlast))
  refine keeps_bind (keeps_lift _) fun proof _ => ?_
  iterate 5 refine keeps_bind (keeps_lift _) fun _ _ => ?_
  refine keeps_bind (keeps_lift _) fun amendedAt _ => ?_
  refine keeps_bind (keeps_checkAmendedAt _ _ _) fun _ _ => ?_
  refine keeps_bind (keeps_lift _) fun bytes _ => ?_
  refine keeps_bind (keeps_countSigners h hprior _ _ _ _ _) fun signers _ => ?_
  refine keeps_bind (keeps_linkSeats h hprior _ _ (List.Subset.refl _)) fun seats _ => ?_
  refine keeps_bind (keeps_lift _) fun _ _ => ?_
  refine keeps_bind (keeps_lift _) fun _ _ => ?_
  rw [h.versionAdmitted next hnext]
  exact keeps_bind (keeps_lift _) fun _ _ => keeps_pure amendedAt

theorem keeps_verifyLinks
    (h : reads.Keeps w now id all reads') (hids : forall v, v ∈ all -> v.community.communityKeyId = id)
    {rest : List Version} (hrest : rest ⊆ all) :
    forall before, before ⊆ all ->
      Judged.Keeps w now (verifyLinks W reads before rest) (verifyLinks W reads' before rest) := by
  induction rest with
  | nil =>
      intro before _
      exact keeps_pure ()
  | cons next rest ih =>
      intro before hbefore
      have hnext := hrest List.mem_cons_self
      refine keeps_bind (keeps_verifyFoundersLink h hbefore hnext (hids next hnext)) fun _ _ => ?_
      refine ih (fun _ hx => hrest (List.mem_cons_of_mem _ hx)) _ ?_
      exact List.append_subset.mpr ⟨hbefore, List.cons_subset.mpr ⟨hnext, List.nil_subset _⟩⟩

theorem keeps_verifyChain
    {chain : List Version} (h : reads.Keeps w now id chain reads')
    (hid : exists v, v ∈ chain ∧ v.community.communityKeyId = id) :
    Judged.Keeps w now (verifyChain W reads chain) (verifyChain W reads' chain) := by
  unfold verifyChain
  refine keeps_bind (keeps_lift _) fun birth hhead => ?_
  have hbirth : birth ∈ chain := List.mem_of_head? (orRefuse_eq_ok_iff.mp hhead)
  refine keeps_bind (keeps_lift _) fun _ hone => ?_
  -- one community throughout, which is the one the reads agree about
  have hsame : forall v, v ∈ chain ->
      v.community.communityKeyId = birth.community.communityKeyId := by
    intro v hv
    have hnone := require_eq_ok_iff.mp hone
    simp only [Bool.not_eq_true', List.any_eq_false, decide_eq_true_eq, not_not] at hnone
    exact hnone v hv
  rcases hid with ⟨v, hv, rfl⟩
  rw [← hsame v hv]
  refine keeps_bind (keeps_lift _) fun _ _ => ?_
  refine keeps_bind (keeps_lift _) fun _ _ => ?_
  refine keeps_bind (keeps_forEach fun f hf => ?_) fun _ _ => ?_
  · rcases mem_founders_iff.mp hf with ⟨m, hm, _, rfl⟩
    exact keeps_bind (h.founderCounts birth m _ _ hbirth hm) fun _ _ => keeps_lift _
  · refine keeps_bind (h.accordQuorumMet birth hbirth) fun met _ => ?_
    refine keeps_bind (keeps_lift _) fun _ _ => ?_
    exact keeps_verifyLinks h (fun u hu => (hsame u hu).trans (hsame v hv).symm)
      (List.drop_subset _ _) _ (List.take_subset _ _)

end Keeps

end Lineage

end CirisPersist.Federation
