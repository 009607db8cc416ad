import CirisPersist.Federation.Consensus.Evaluate
import Mathlib.Data.Finset.Insert

/-!
# What an admitted ballot guarantees

Every arm of the evaluator sits behind two guards: a self-signed admission is
refused, and so is a change that no eligible member signed.  This module reads
the guards off an admitting verdict once, and derives from them what a caller
may conclude about the signers.
-/

namespace CirisPersist.Federation

open ConsensusProtocol

/-!
## Eligible signers

The eligible seats, stated without the evaluator's lists.
-/

def EligibleSeat (b : Ballot) (s : Seat) : Prop :=
  s ∈ b.roster ∧
    (b.subkind = some cohortSubkindInfrastructure ->
      s.role = some memberRoleFounder ∧ s.nodeBearing = false)

def EligibleSigner (b : Ballot) (s : Seat) : Prop :=
  EligibleSeat b s ∧ s.keyId ∈ b.signers

/-- The one change `open:self_admit` admits without a seated voice: an unseated
key of a public group that signs its own admission. -/
def SelfJoin (b : Ballot) : Prop :=
  b.protocol = ConsensusProtocol.openSelfAdmit ∧
    b.subkind = some cohortSubkindPublic ∧
    b.direction = .add ∧
    exists k, b.subject = some k ∧ (forall s, s ∈ b.roster -> s.keyId ≠ k) ∧
      k ∈ b.signers

theorem mem_eligible_iff
    (b : Ballot) (s : Seat) :
    s ∈ eligible b <-> EligibleSeat b s := by
  unfold eligible EligibleSeat Seat.isFounder
  by_cases hsub : b.subkind = some cohortSubkindInfrastructure <;>
    simp [hsub]

theorem mem_counted_iff
    (b : Ballot) (s : Seat) :
    s ∈ counted (eligible b) b.signers <-> EligibleSigner b s := by
  simp [counted, EligibleSigner, mem_eligible_iff]

theorem selfSigned_eq_true_iff
    (b : Ballot) :
    selfSigned b = true <->
      b.direction = .add ∧ exists k, b.subject = some k ∧ b.signers = {k} := by
  unfold selfSigned
  cases hsub : b.subject with
  | none => simp
  | some k =>
      have hone : (b.signers.card = 1 ∧ k ∈ b.signers) <-> b.signers = {k} := by
        constructor
        · rintro ⟨hcard, hmem⟩
          rcases Finset.card_eq_one.mp hcard with ⟨a, ha⟩
          rw [ha, Finset.mem_singleton] at hmem
          rw [ha, hmem]
        · intro h
          simp [h]
      simp [hone]

/-!
## Inversion of an admitting verdict
-/

variable {b : Ballot}

theorem two_voices_of_le
    (h : 2 ≤ voicesBesides (counted (eligible b) b.signers) b.subject) :
    exists s t, [s, t].Sublist b.roster ∧
      EligibleSigner b s ∧ EligibleSigner b t ∧
      b.subject ≠ some s.keyId ∧ b.subject ≠ some t.keyId := by
  let voices := (counted (eligible b) b.signers).filter fun s =>
    some s.keyId != b.subject
  have hlen : 2 ≤ voices.length := by
    simpa [voicesBesides, List.countP_eq_length_filter] using h
  have hsub : voices.Sublist b.roster :=
    List.filter_sublist.trans (List.filter_sublist.trans List.filter_sublist)
  have hvoice : forall s, s ∈ voices -> EligibleSigner b s ∧ b.subject ≠ some s.keyId := by
    intro s hs
    have hs' := List.mem_filter.mp hs
    refine ⟨(mem_counted_iff b s).mp hs'.1, ?_⟩
    simpa using fun heq => (by simpa using hs'.2 : ¬ some s.keyId = b.subject) heq.symm
  match hv : voices, hlen with
  | s :: t :: rest, _ =>
      have hs := hvoice s (by simp)
      have ht := hvoice t (by simp)
      refine ⟨s, t, List.Sublist.trans ?_ hsub, hs.1, ht.1, hs.2, ht.2⟩
      exact List.Sublist.cons_cons s (List.Sublist.cons_cons t (List.nil_sublist rest))

theorem evaluateOpenSelfAdmit_admit_cases
    (hopen : b.protocol = openSelfAdmit)
    (h : evaluateOpenSelfAdmit b (counted (eligible b) b.signers) = .admitted) :
    SelfJoin b ∨ 2 ≤ voicesBesides (counted (eligible b) b.signers) b.subject := by
  have hvoices :
      evaluateOpenSelfAdmitVoices b (counted (eligible b) b.signers) = .admitted ->
        2 ≤ voicesBesides (counted (eligible b) b.signers) b.subject := by
    intro hv
    by_contra hfew
    simp [evaluateOpenSelfAdmitVoices, openSelfAdmitRemovalFloor, hfew] at hv
  unfold evaluateOpenSelfAdmit at h
  split at h
  · cases h
  rename_i hpublic
  split at h
  · rename_i k hdir hsubj
    split at h
    · exact Or.inr (hvoices h)
    rename_i hseat
    split at h
    · rename_i hsign
      exact Or.inl ⟨hopen, by simpa using hpublic, hdir, k, hsubj, by simpa [seated] using hseat,
        hsign⟩
    · cases h
  · exact Or.inr (hvoices h)

section Evaluate

variable (W : Type) [RubricNum W] [External]

theorem evaluateForm_admit_cases
    {custom : String -> Verdict} (h : evaluateForm W custom b = .admitted) :
    (b.protocol = openSelfAdmit ∧
      evaluateOpenSelfAdmit b (counted (eligible b) b.signers) = .admitted) ∨
    (b.protocol ≠ openSelfAdmit ∧ selfSigned b = false ∧
      exists s, EligibleSigner b s) := by
  unfold evaluateForm at h
  by_cases hopen : b.protocol = openSelfAdmit
  · rw [if_pos hopen] at h
    exact Or.inl ⟨hopen, h⟩
  · rw [if_neg hopen] at h
    cases hself : selfSigned b with
    | true => simp [hself] at h
    | false =>
        cases hgot : counted (eligible b) b.signers with
        | nil => simp [hself, hgot] at h
        | cons s rest =>
            have hs : s ∈ counted (eligible b) b.signers := by
              simp [hgot]
            exact Or.inr ⟨hopen, rfl, s, (mem_counted_iff b s).mp hs⟩

/-!
## No change without an eligible signature

The arms themselves never matter here: whatever a rubric or a custom expression
answers, it is only asked after the guards.
-/

theorem evaluate_admit_signed
    (b : Ballot)
    (h : evaluate W b = Verdict.admitted) :
    ((exists s, EligibleSigner b s) ∨ SelfJoin b) ∧
    (b.protocol = ConsensusProtocol.openSelfAdmit -> ¬ SelfJoin b ->
      exists s t, [s, t].Sublist b.roster ∧
        EligibleSigner b s ∧ EligibleSigner b t ∧
        b.subject ≠ some s.keyId ∧ b.subject ≠ some t.keyId ∧
        ((b.roster.map Seat.keyId).Nodup -> s.keyId ≠ t.keyId)) := by
  have hdistinct : forall s t, [s, t].Sublist b.roster ->
      (b.roster.map Seat.keyId).Nodup -> s.keyId ≠ t.keyId := by
    intro s t hsub hnodup
    have hpair := hnodup.sublist (hsub.map Seat.keyId)
    simpa using hpair
  cases evaluateForm_admit_cases W h with
  | inl hcase =>
      rcases hcase with ⟨hopen, hadmitted⟩
      cases evaluateOpenSelfAdmit_admit_cases hopen hadmitted with
      | inl hjoin =>
          exact ⟨Or.inr hjoin, fun _ hno => absurd hjoin hno⟩
      | inr hfloor =>
          rcases two_voices_of_le hfloor with ⟨s, t, hsub, hs, ht, hss, hts⟩
          exact ⟨Or.inl ⟨s, hs⟩, fun _ _ =>
            ⟨s, t, hsub, hs, ht, hss, hts, hdistinct s t hsub⟩⟩
  | inr hcase =>
      rcases hcase with ⟨hopen, -, hsigner⟩
      exact ⟨Or.inl hsigner, fun h => absurd h hopen⟩

end Evaluate

section Samples

open Reference

def openRoomRemoval : Ballot where
  protocol := ConsensusProtocol.openSelfAdmit
  subkind := some cohortSubkindPublic
  policyBlob := none
  roster :=
    [⟨"ada", some memberRoleFounder, false⟩, ⟨"bob", none, false⟩, ⟨"eve", none, false⟩]
  signers := {"ada", "bob"}
  direction := .remove
  subject := some "eve"

theorem openRoomRemoval_two_voices :
    evaluate Rat openRoomRemoval = .admitted ∧
      exists s t, [s, t].Sublist openRoomRemoval.roster ∧
        EligibleSigner openRoomRemoval s ∧ EligibleSigner openRoomRemoval t ∧
        openRoomRemoval.subject ≠ some s.keyId ∧ openRoomRemoval.subject ≠ some t.keyId ∧
        ((openRoomRemoval.roster.map Seat.keyId).Nodup -> s.keyId ≠ t.keyId) := by
  have hadmitted : evaluate Rat openRoomRemoval = .admitted := by
    decide
  have hnojoin : ¬ SelfJoin openRoomRemoval := by
    rintro ⟨-, -, hdir, -⟩
    exact absurd hdir (by decide)
  exact ⟨hadmitted, (evaluate_admit_signed Rat openRoomRemoval hadmitted).2 rfl hnojoin⟩

end Samples

section Evaluate

variable (W : Type) [RubricNum W] [External]

theorem eligibleSigner_of_admitted
    (hopen : b.protocol ≠ openSelfAdmit) (h : evaluate W b = .admitted) :
    exists s, EligibleSigner b s := by
  cases evaluateForm_admit_cases W h with
  | inl hcase => exact absurd hcase.1 hopen
  | inr hcase => exact hcase.2.2

theorem evaluate_reverseQuorum_removal_iff
    {policy : ReverseQuorumPolicy} (hpolicy : ReverseQuorumPolicy.parse b.protocol = some policy)
    (hdir : b.direction = .remove) :
    evaluate W b = .admitted <-> exists s, EligibleSigner b s := by
  have hstarts := ReverseQuorumPolicy.startsWith_of_parse hpolicy
  have hother : forall protocol,
      Text.startsWith reverseQuorumPrefix protocol = false -> b.protocol ≠ protocol := by
    rintro protocol hnot rfl
    rw [hstarts] at hnot
    cases hnot
  constructor
  · exact eligibleSigner_of_admitted W (hother _ (by decide))
  · rintro ⟨s, hs⟩
    have hself : selfSigned b = false := by
      simp [selfSigned, hdir]
    have hgot : (counted (eligible b) b.signers).isEmpty = false := by
      simpa using List.ne_nil_of_mem ((mem_counted_iff b s).mpr hs)
    simp [evaluate, evaluateForm, evaluateArms, hself, hgot, hstarts, evalReverseQuorum,
      hpolicy, hdir, hother openSelfAdmit (by decide),
      hother founderOnly (by decide),
      hother unanimous (by decide),
      hother majority (by decide)]

/-!
## The group's side of an admission

The self-signed guard compares the raw signer set with the subject.  A further
signature by a key without an eligible seat therefore lifts the guard, and the
subject's own seat is then the only one that is counted.
-/

theorem evaluate_quorum_one
    (hproto : b.protocol = "quorum:1/1") (hself : selfSigned b = false)
    (hsigner : exists s, EligibleSigner b s) :
    evaluate W b = .admitted := by
  rcases hsigner with ⟨s, hs⟩
  have hmem := (mem_counted_iff b s).mpr hs
  have hpos : 1 ≤ (counted (eligible b) b.signers).length := List.length_pos_of_mem hmem
  have hne : (counted (eligible b) b.signers).isEmpty = false := by
    simpa using List.ne_nil_of_mem hmem
  have hstrip : Text.stripPrefix quorumPrefix "quorum:1/1" = some "1/1" := by
    decide
  have htail : parseQuorumTail "1/1" = some (1, 1) := by
    decide
  have hreverse : Text.startsWith reverseQuorumPrefix "quorum:1/1" = false := by
    decide
  simp [evaluate, evaluateForm, evaluateArms, hproto, hself, hne, hstrip, hreverse,
    evalQuorum, htail, hpos, openSelfAdmit, founderOnly,
    unanimous, majority]

theorem admission_has_other_signer_iff
    (b : Ballot) (k : String)
    (hdir : b.direction = Direction.add)
    (hsubject : b.subject = some k) :
    (forall protocol policyBlob,
      protocol ≠ ConsensusProtocol.openSelfAdmit ->
      evaluate W { b with protocol := protocol, policyBlob := policyBlob } =
        Verdict.admitted ->
      exists s, EligibleSigner b s ∧ s.keyId ≠ k) <->
    ¬ ((exists s, EligibleSigner b s) ∧
        (forall s, EligibleSigner b s -> s.keyId = k) ∧ b.signers ≠ {k}) := by
  constructor
  · rintro hprop ⟨hsome, honly, hextra⟩
    let quorum : Ballot := { b with protocol := "quorum:1/1", policyBlob := none }
    have hself : selfSigned quorum = false := by
      rw [← Bool.not_eq_true, selfSigned_eq_true_iff]
      rintro ⟨-, k', hk', hsigners⟩
      have hkk : k' = k := by
        simpa [quorum, hsubject] using hk'.symm
      exact hextra (hkk ▸ hsigners)
    have hadmitted : evaluate W quorum = Verdict.admitted :=
      evaluate_quorum_one W rfl hself hsome
    rcases hprop "quorum:1/1" none (by decide) hadmitted with ⟨s, hs, hsk⟩
    exact hsk (honly s hs)
  · intro hcond protocol policyBlob hopen hadmitted
    let ballot : Ballot := { b with protocol := protocol, policyBlob := policyBlob }
    have hcases := evaluateForm_admit_cases W hadmitted
    simp only [hopen, false_and, false_or, ne_eq, not_false_eq_true, true_and] at hcases
    rcases hcases with ⟨hself, hsome⟩
    have hextra : b.signers ≠ {k} := by
      intro hsigners
      have htrue : selfSigned ballot = true :=
        (selfSigned_eq_true_iff ballot).mpr ⟨hdir, k, hsubject, hsigners⟩
      rw [htrue] at hself
      exact Bool.noConfusion hself
    by_contra hnone
    refine hcond ⟨hsome, ?_, hextra⟩
    intro s hs
    by_contra hsk
    exact hnone ⟨s, hs, hsk⟩

end Evaluate

section Samples

open Reference

/-- A founder re-roles their own seat; a key without a seat signs along. -/
def strangerCosigned : Ballot where
  protocol := ConsensusProtocol.founderOnly
  subkind := none
  policyBlob := none
  roster := [⟨"ada", some memberRoleFounder, false⟩, ⟨"bob", none, false⟩]
  signers := {"ada", "stranger"}
  direction := .add
  subject := some "ada"

theorem strangerCosigned_admits :
    evaluate Rat strangerCosigned = .admitted ∧
      (forall s, EligibleSigner strangerCosigned s -> s.keyId = "ada") ∧
      evaluate Rat { strangerCosigned with signers := {"ada"} } ≠ .admitted := by
  refine ⟨by decide, ?_, by decide⟩
  intro s hs
  have hmem : s ∈ [(⟨"ada", some memberRoleFounder, false⟩ : Seat)] :=
    (mem_counted_iff strangerCosigned s).mpr hs
  rw [List.mem_singleton.mp hmem]

def memberCosigned : Ballot :=
  { strangerCosigned with signers := {"ada", "bob"} }

theorem memberCosigned_has_other_signer :
    evaluate Rat memberCosigned = .admitted ∧
      exists s, EligibleSigner memberCosigned s ∧ s.keyId ≠ "ada" := by
  have hadmitted : evaluate Rat memberCosigned = .admitted := by
    decide
  refine ⟨hadmitted, (admission_has_other_signer_iff Rat memberCosigned "ada" rfl rfl).mpr ?_
    ConsensusProtocol.founderOnly none (by decide) hadmitted⟩
  rintro ⟨-, honly, -⟩
  have hbob : EligibleSigner memberCosigned ⟨"bob", none, false⟩ :=
    (mem_counted_iff memberCosigned _).mp (by decide)
  exact absurd (honly _ hbob) (by decide)

end Samples

end CirisPersist.Federation
