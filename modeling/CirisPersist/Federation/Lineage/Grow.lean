import CirisPersist.Federation.Lineage.Write

/-!
# A rooted lineage only grows

Offers applied to a rooted row keep the stored chain as a prefix, and every version
they store is a link of the versions before it.  An offer that is refused can still
leave part of itself behind: a link is not asked to name its predecessor's digest,
and the store asks that of each version as it is written.
-/

namespace CirisPersist.Federation
namespace Lineage

open Checks Expiring

/-!
## One application
-/

namespace Application

section Step

variable [LineageCodec]

def newVersions (a : Application) (held : SignedCommunity) : List Version :=
  (chainOf a.offered).drop (chainOf held).length

theorem extendsHeld_eq_fromPos
    {held : SignedCommunity} {chain : List Version} {pos : Nat}
    (h : extendsHeld held chain = .fromPos pos) :
    pos + 1 = (chainOf held).length ∧ (chainOf held).length < chain.length := by
  have hlen : 0 < (chainOf held).length := List.length_pos_of_ne_nil (chainOf_ne_nil held)
  simp only [extendsHeld] at h
  split at h
  · next hprefix =>
    split at h
    · cases h
    · next hlonger =>
      cases h
      have hlt := hprefix.1
      exact ⟨by omega, by omega⟩
  · split at h
    · cases h
    · cases h

theorem extendsHeld_ne_fromPos_of_same
    {held : SignedCommunity} {chain : List Version} {pos : Nat}
    (hsame : List.Forall₂ (fun h o => sameVersion h o = true) (chainOf held) chain) :
    extendsHeld held chain ≠ .fromPos pos := by
  intro h
  have hlen := hsame.length_eq
  have hlt := (extendsHeld_eq_fromPos h).2
  omega

end Step

section Cases

variable {W : Type} [RubricNum W] [External] [LineageCodec] {a : Application}
  {store : GroupStore} {held : SignedCommunity} {standing : StoredStanding}

def WitnessOff (a : Application) : Prop :=
  forall chain, (a.reads.witness chain).judged = none

theorem stored_of_held
    (hoff : a.WitnessOff) (h : a.storedStanding W store = .ok standing)
    (hheld : standing.held = some held) :
    store.communities a.id = some (.signed held) := by
  unfold storedStanding at h
  cases hrow : store.communities a.id with
  | none =>
      rw [hrow] at h
      cases h
      cases hheld
  | some row =>
      rw [hrow] at h
      by_cases hgrade : isTrustRootGrade row.community = true
      · cases row with
        | unsigned c =>
            simp only [hgrade] at h
            cases h
            cases hheld
        | signed s =>
            simp only [hgrade] at h
            have hjudged := (computeStanding_held h hheld).2
            rw [judgedVersion_of_judged_none (hoff _)] at hjudged
            rw [hjudged]
      · simp only [hgrade] at h
        cases h
        cases hheld

theorem extendStored_cases
    {pos : Nat} (hpos : pos + 1 = (chainOf held).length) :
    (exists e, a.extendStored W store held pos = (.error e, store) ∧
      ¬ ((verifyLinks W a.reads.toChainReads (chainOf held) (a.newVersions held)).outcome
            a.now = .ok () ∧
          a.coversHead (chainOf held ++ a.newVersions held) = true)) ∨
    ((verifyLinks W a.reads.toChainReads (chainOf held) (a.newVersions held)).outcome
        a.now = .ok () ∧
      a.coversHead (chainOf held ++ a.newVersions held) = true ∧
      a.extendStored W store held pos =
        let written := writeVersions a.id none store (chainOf held) (a.newVersions held)
        (written.1.map some, written.2)) := by
  have hlen : 0 < (chainOf held).length := List.length_pos_of_ne_nil (chainOf_ne_nil held)
  have hat : (chainOf held).length - 1 + 1 = (chainOf held).length := by omega
  have hwalk : walkFromHeld held (chainOf a.offered) pos =
      (chainOf held ++ a.newVersions held, (chainOf held).length - 1) := by
    simp only [walkFromHeld, newVersions, hpos]
  have htake : (chainOf held ++ a.newVersions held).take (chainOf held).length =
      chainOf held := List.take_left
  have hdrop : (chainOf held ++ a.newVersions held).drop (chainOf held).length =
      a.newVersions held := List.drop_left
  have hfrom : verifyLinksFrom W a.reads.toChainReads (chainOf held ++ a.newVersions held)
      ((chainOf held).length - 1) =
      verifyLinks W a.reads.toChainReads (chainOf held) (a.newVersions held) := by
    rw [verifyLinksFrom, hat, htake, hdrop]
  cases hlinks : (verifyLinks W a.reads.toChainReads (chainOf held)
      (a.newVersions held)).outcome a.now with
  | error e =>
      refine Or.inl ⟨.chain e, ?_, fun h => nomatch h.1⟩
      simp only [extendStored, hwalk, hfrom, hlinks]
  | ok u =>
      cases hcovers : a.coversHead (chainOf held ++ a.newVersions held) with
      | false =>
          refine Or.inl ⟨.disagreesWithFold a.id, ?_, fun h => nomatch h.2⟩
          simp only [extendStored, hwalk, hfrom, hlinks, hcovers, Bool.not_false, if_true]
      | true =>
          refine Or.inr ⟨rfl, rfl, ?_⟩
          simp only [extendStored, hwalk, hfrom, hlinks, hcovers, Bool.not_true,
            Bool.false_eq_true, if_false, hat, htake, hdrop]

/-- The offer extends the held chain by links that verify, up to a head that reflects
its roster. -/
structure VerifiedExtension (W : Type) [RubricNum W] (a : Application)
    (held : SignedCommunity) : Prop where
  extending : exists pos, extendsHeld held (chainOf a.offered) = .fromPos pos
  links : (verifyLinks W a.reads.toChainReads (chainOf held) (a.newVersions held)).outcome
    a.now = .ok ()
  covers : a.coversHead (chainOf held ++ a.newVersions held) = true

theorem apply_rooted_cases
    (h : a.storedStanding W store = .ok (.rooted held)) :
    (extendsHeld held (chainOf a.offered) = .same ∧
      a.applyTrustRootChainCounted W store = (.ok (some 0), store)) ∨
    (¬ a.VerifiedExtension W held ∧
      exists e, a.applyTrustRootChainCounted W store = (.error e, store)) ∨
    (a.VerifiedExtension W held ∧
      a.applyTrustRootChainCounted W store =
        let written := writeVersions a.id none store (chainOf held) (a.newVersions held)
        (written.1.map some, written.2)) := by
  cases hext : extendsHeld held (chainOf a.offered) with
  | same =>
      refine Or.inl ⟨rfl, ?_⟩
      simp only [applyTrustRootChainCounted, h, StoredStanding.held, hext]
  | no =>
      refine Or.inr (Or.inl ⟨?_, .doesNotExtend a.id, ?_⟩)
      · rintro ⟨⟨pos, hpos⟩, _, _⟩
        rw [hext] at hpos
        cases hpos
      · simp only [applyTrustRootChainCounted, h, StoredStanding.held, hext,
          isRebirthOverStalled, Bool.false_eq_true, if_false]
  | fromPos pos =>
      have happly : a.applyTrustRootChainCounted W store = a.extendStored W store held pos := by
        simp only [applyTrustRootChainCounted, h, StoredStanding.held, hext]
      rw [happly]
      rcases @extendStored_cases W _ _ _ a store held pos (extendsHeld_eq_fromPos hext).1 with
        ⟨e, heq, hfails⟩ | ⟨hlinks, hcovers, heq⟩
      · exact Or.inr (Or.inl ⟨fun hv => hfails ⟨hv.links, hv.covers⟩, e, heq⟩)
      · exact Or.inr (Or.inr ⟨⟨⟨pos, hext⟩, hlinks, hcovers⟩, heq⟩)

end Cases

/-!
## Growth
-/

section Grows

variable (W : Type) [RubricNum W] [External] [LineageCodec] (a : Application)
  (store : GroupStore) (held : SignedCommunity)

/-- The stored chain starts with the held one, and what is newly stored carries the
versions before it and is a link of them. -/
structure Grows : Prop where
  live : exists head,
    (a.applyTrustRootChainCounted W store).2.communities a.id =
      some (.signed head) ∧ chainOf held <+: chainOf head
  linked : forall s, (a.applyTrustRootChainCounted W store).2.Holds (.signed s) ->
    ¬ store.Holds (.signed s) ->
    WrittenFrom (chainOf held) (a.newVersions held) s ∧ exists amendedAt,
      (verifyFoundersLink W a.reads.toChainReads s.lineage s.toVersion).outcome a.now =
        .ok amendedAt

/-- The offer carries the held chain, or the content of its head. -/
def CarriesHeld : Prop :=
  List.Forall₂ (fun h o => sameVersion h o = true) (chainOf held) (chainOf a.offered) ∨
    LineageCodec.rowHash a.offered.community = LineageCodec.rowHash held.community

/-- A refused offer, or one that carries what is held, changes nothing. -/
def QuietWhenRefused : Prop :=
  (exists e, (a.applyTrustRootChainCounted W store).1 = .error e) ∨ a.CarriesHeld held ->
    (a.applyTrustRootChainCounted W store).2 = store

/-- The first new version names the held head, but a later one does not name the version
before it, or the head repeats the held content. -/
def HalfApplied : Prop :=
  a.VerifiedExtension W held ∧
    exists v rest, a.newVersions held = v :: rest ∧ NamesPrior a.id held.toVersion v ∧
      (¬ NamesPriors a.id v rest ∨
        LineageCodec.rowHash a.offered.community = LineageCodec.rowHash held.community)

variable {W a store held}

theorem grows_of_rooted
    (hoff : a.WitnessOff) (h : a.storedStanding W store = .ok (.rooted held)) :
    a.Grows W store held := by
  have hstored := stored_of_held hoff h rfl
  have hunchanged : (a.applyTrustRootChainCounted W store).2 = store -> a.Grows W store held := by
    intro heq
    refine ⟨⟨held, by rw [heq]; exact hstored, List.prefix_refl _⟩, ?_⟩
    intro s hs hnew
    rw [heq] at hs
    exact absurd hs hnew
  rcases apply_rooted_cases h with ⟨_, heq⟩ | ⟨_, e, heq⟩ | ⟨hverified, heq⟩
  · exact hunchanged (by rw [heq])
  · exact hunchanged (by rw [heq])
  · refine ⟨?_, ?_⟩
    · rw [heq]
      rcases communities_writeVersions a.id none (a.newVersions held) a.id store
          (chainOf held) with hkeep | ⟨s, hs, hlive⟩
      · exact ⟨held, hkeep.trans hstored, List.prefix_refl _⟩
      · exact ⟨s, hlive, prefix_chainOf_of_writtenFrom hs⟩
    · intro s hs hnew
      rw [heq] at hs
      rcases holds_writeVersions hs with hold | ⟨s', hs', heq'⟩
      · exact absurd hold hnew
      · cases heq'
        exact ⟨hs', verified_of_writtenFrom hverified.links hs'⟩

theorem quietWhenRefused_iff
    (hids : HashNamesId) (hoff : a.WitnessOff)
    (h : a.storedStanding W store = .ok (.rooted held)) :
    a.QuietWhenRefused W store held <-> ¬ a.HalfApplied W held := by
  have hstored := stored_of_held hoff h rfl
  rcases apply_rooted_cases h with ⟨hsame, heq⟩ | ⟨hnot, e, heq⟩ | ⟨hverified, heq⟩
  · refine ⟨?_, fun _ _ => by rw [heq]⟩
    rintro _ ⟨hverified, _⟩
    rcases hverified.extending with ⟨pos, hpos⟩
    rw [hsame] at hpos
    cases hpos
  · exact ⟨fun _ hhalf => hnot hhalf.1, fun _ _ => by rw [heq]⟩
  · have hlinks := proofsLink_of_verifyLinks (getLast?_chainOf held) hverified.links
    have hnot : ¬ List.Forall₂ (fun h o => sameVersion h o = true) (chainOf held)
        (chainOf a.offered) := by
      rcases hverified.extending with ⟨pos, hpos⟩
      exact fun hsame => extendsHeld_ne_fromPos_of_same hsame hpos
    unfold QuietWhenRefused CarriesHeld HalfApplied
    rw [heq]
    cases hnew : a.newVersions held with
    | nil =>
        refine ⟨?_, fun _ _ => rfl⟩
        rintro _ ⟨_, v, rest, hcons, _⟩
        cases hcons
    | cons v rest =>
        rw [hnew] at hlinks
        have hstore := writeVersions_store_eq_iff hids (chainOf held) rest hstored rfl hlinks
        have hrefused : (exists e, (writeVersions a.id none store (chainOf held)
            (v :: rest)).1.map some = .error e) <->
            ¬ NamesPriors a.id held.toVersion (v :: rest) := by
          rw [exists_map_eq_error_iff]
          exact not_congr (writeVersions_isOk_iff hids _ _ _ _ hstored rfl hlinks)
        constructor
        · rintro hquiet ⟨_, v', rest', hcons, hnames, hbad⟩
          cases hcons
          refine hstore.mp (hquiet ?_) hnames
          rcases hbad with hbad | hcontent
          · exact Or.inl (hrefused.mpr fun h => hbad h.2)
          · exact Or.inr (Or.inr hcontent)
        · intro hwhole hcase
          refine hstore.mpr fun hnames => hwhole ⟨hverified, v, rest, rfl, hnames, ?_⟩
          rcases hcase with hrefusal | hcarried | hcontent
          · exact Or.inl fun hrest => hrefused.mp hrefusal ⟨hnames, hrest⟩
          · exact absurd hcarried hnot
          · exact Or.inr hcontent

end Grows

/-!
## Replacement
-/

def BirthLater (held : SignedCommunity) (chain : List Version) : Prop :=
  exists old new, (chainOf held).head? = some old ∧ chain.head? = some new ∧
    new.supersedeProof = none ∧ old.community.foundedAt < new.community.foundedAt

theorem birthLater_of_isRebirthOverStalled
    {held : SignedCommunity} {founder : String} {chain : List Version}
    (h : isRebirthOverStalled (.stalled held founder) chain = true) :
    BirthLater held chain := by
  simp only [isRebirthOverStalled] at h
  cases hnew : chain.head? with
  | none =>
      rw [hnew] at h
      cases h
  | some new =>
      rw [hnew] at h
      simp only [Option.any_some, Bool.and_eq_true, Option.isNone_iff_eq_none,
        decide_eq_true_eq] at h
      cases hold : held.lineage with
      | nil =>
          refine ⟨held.toVersion, new, by simp [chainOf, hold], hnew, h.1, ?_⟩
          simpa [hold] using h.2
      | cons old rest =>
          refine ⟨old, new, by simp [chainOf, hold], hnew, h.1, ?_⟩
          simpa [hold] using h.2

section Replaces

variable {W : Type} [RubricNum W] [External] [LineageCodec] {a : Application}
  {store : GroupStore} {held : SignedCommunity}

theorem live_extendStored
    {pos : Nat} (hpos : pos + 1 = (chainOf held).length) (k : String) :
    (a.extendStored W store held pos).2.communities k = store.communities k ∨
    exists s, WrittenFrom (chainOf held) (a.newVersions held) s ∧
      (a.extendStored W store held pos).2.communities k = some (.signed s) := by
  rcases @extendStored_cases W _ _ _ a store held pos hpos with ⟨e, heq, _⟩ | ⟨_, _, heq⟩
  · exact Or.inl (by rw [heq])
  · rw [heq]
    exact communities_writeVersions a.id none (a.newVersions held) k store (chainOf held)

theorem live_replaceStored
    (replaces : Authorization) (k : String) :
    (a.replaceStored W store replaces).2.communities k = store.communities k ∨
    ((verifyChain W a.reads.toChainReads (chainOf a.offered)).outcome a.now = .ok () ∧
      exists s, WrittenFrom [] (chainOf a.offered) s ∧
        (a.replaceStored W store replaces).2.communities k = some (.signed s)) := by
  cases hchain : (verifyChain W a.reads.toChainReads (chainOf a.offered)).outcome a.now with
  | error e => exact Or.inl (by simp only [replaceStored, hchain])
  | ok u =>
      simp only [replaceStored, hchain, true_and]
      exact communities_writeVersions a.id (some replaces) (chainOf a.offered) k store []

/-- A stalled chain with a birth after it offered, or a row that is not rooted. -/
def Replaceable (W : Type) [RubricNum W] (a : Application) (store : GroupStore) : Prop :=
  (exists held founder, a.storedStanding W store =
      .ok (.stalled held founder) ∧ BirthLater held (chainOf a.offered)) ∨
    exists reason, a.storedStanding W store = .ok (.notRooted reason)

theorem apply_cases
    (W : Type) [RubricNum W] (a : Application) (store : GroupStore) :
    (a.applyTrustRootChainCounted W store).2 = store ∨
    (exists standing held pos, a.storedStanding W store = .ok standing ∧
      standing.held = some held ∧
      extendsHeld held (chainOf a.offered) = .fromPos pos ∧
      a.applyTrustRootChainCounted W store = a.extendStored W store held pos) ∨
    (a.Replaceable W store ∧ exists replaces,
      a.applyTrustRootChainCounted W store = a.replaceStored W store replaces) := by
  unfold applyTrustRootChainCounted
  cases hstanding : a.storedStanding W store with
  | error e => exact Or.inl rfl
  | ok standing =>
      cases standing with
      | absent => exact Or.inl rfl
      | notRooted reason => exact Or.inr (Or.inr ⟨Or.inr ⟨reason, hstanding⟩, _, rfl⟩)
      | rooted held =>
          simp only [StoredStanding.held]
          cases hext : extendsHeld held (chainOf a.offered) with
          | same => exact Or.inl rfl
          | no => exact Or.inl rfl
          | fromPos pos => exact Or.inr (Or.inl ⟨_, held, pos, rfl, rfl, hext, rfl⟩)
      | stalled held founder =>
          simp only [StoredStanding.held]
          cases hext : extendsHeld held (chainOf a.offered) with
          | same => exact Or.inl rfl
          | fromPos pos => exact Or.inr (Or.inl ⟨_, held, pos, rfl, rfl, hext, rfl⟩)
          | no =>
              cases hbirth : isRebirthOverStalled (.stalled held founder)
                  (chainOf a.offered) with
              | false => exact Or.inl rfl
              | true =>
                  exact Or.inr (Or.inr ⟨Or.inl ⟨held, founder, hstanding,
                    birthLater_of_isRebirthOverStalled hbirth⟩, _, rfl⟩)

def Replaced (W : Type) [RubricNum W] (a : Application) (store : GroupStore)
    (new : SignedCommunity) : Prop :=
  (a.applyTrustRootChainCounted W store).2.communities a.id = some (.signed new) ∧
    store.communities a.id ≠ some (.signed new) ∧
    forall held, store.communities a.id = some (.signed held) ->
      ¬ chainOf held <+: chainOf new

theorem standing_of_replaced
    {new : SignedCommunity} (hoff : a.WitnessOff) (h : a.Replaced W store new) :
    ((exists held founder, a.storedStanding W store =
        .ok (.stalled held founder) ∧ BirthLater held (chainOf a.offered)) ∨
      exists reason, a.storedStanding W store = .ok (.notRooted reason)) ∧
    (verifyChain W a.reads.toChainReads (chainOf a.offered)).outcome a.now = .ok () ∧
    chainOf new <+: chainOf a.offered := by
  rcases h with ⟨hlive, hchanged, hfork⟩
  rcases apply_cases W a store with heq | ⟨standing, held, pos, hstanding, hheld, hext, heq⟩ |
    ⟨hreplaceable, replaces, heq⟩
  · rw [heq] at hlive
    exact absurd hlive hchanged
  · rw [heq] at hlive
    rcases live_extendStored (W := W) (a := a) (extendsHeld_eq_fromPos hext).1 a.id with
      hkeep | ⟨s, hs, hlive'⟩
    · exact absurd (hkeep.symm.trans hlive) hchanged
    · cases Option.some.inj (hlive'.symm.trans hlive)
      exact absurd (prefix_chainOf_of_writtenFrom hs)
        (hfork held (stored_of_held hoff hstanding hheld))
  · -- a chain that replaces the row is verified whole and stored from its birth
    rw [heq] at hlive
    rcases live_replaceStored (W := W) (a := a) replaces a.id with
      hkeep | ⟨hchain, s, hs, hlive'⟩
    · exact absurd (hkeep.symm.trans hlive) hchanged
    · cases Option.some.inj (hlive'.symm.trans hlive)
      exact ⟨hreplaceable, hchain, chainOf_prefix_of_writtenFrom hs⟩

end Replaces

end Application

/-!
## Runs
-/

section Runs

variable (W : Type) [RubricNum W] [External] [LineageCodec]

def applyAll : GroupStore -> List Application -> GroupStore
  | store, [] => store
  | store, a :: rest => applyAll (a.applyTrustRootChainCounted W store).2 rest

def stepsOf : GroupStore -> List Application -> List (Application × GroupStore)
  | _, [] => []
  | store, a :: rest => (a, store) :: stepsOf (a.applyTrustRootChainCounted W store).2 rest

/-- Witnessed mode is off and the row stored at the id reads rooted. -/
structure ReadsRooted (id : String) (step : Application × GroupStore) (held : SignedCommunity) :
    Prop where
  offers : step.1.id = id
  off : step.1.WitnessOff
  rooted : step.1.storedStanding W step.2 = .ok (.rooted held)

variable {W}

theorem chain_prefix_applyAll
    {id : String} {applications : List Application} {store : GroupStore} {held : SignedCommunity}
    (hstored : store.communities id = some (.signed held))
    (hrun : forall step, step ∈ stepsOf W store applications ->
      exists held, ReadsRooted W id step held) :
    exists head, (applyAll W store applications).communities id =
      some (.signed head) ∧ chainOf held <+: chainOf head := by
  induction applications generalizing store held with
  | nil => exact ⟨held, hstored, List.prefix_refl _⟩
  | cons a rest ih =>
      rcases hrun (a, store) List.mem_cons_self with ⟨held', hread⟩
      have hid : a.id = id := hread.offers
      have hsame := Application.stored_of_held hread.off hread.rooted rfl
      rw [hid, hstored] at hsame
      cases hsame
      rcases (Application.grows_of_rooted hread.off hread.rooted).live with
        ⟨head, hhead, hprefix⟩
      rw [hid] at hhead
      rcases ih hhead fun step hstep => hrun step (List.mem_cons_of_mem _ hstep) with
        ⟨last, hlast, hprefix'⟩
      exact ⟨last, hlast, hprefix.trans hprefix'⟩

/-- Over every run of offers to a rooted row: the stored chain only grows, what is newly
stored is linked to the versions before it, and refused offers change nothing exactly
when none is applied by half.  Only a stalled or unrooted row is ever replaced, by a
chain that verifies from its birth. -/
theorem rooted_lineage_only_grows
    (hids : HashNamesId) {id : String} {store : GroupStore} {applications : List Application}
    (held : SignedCommunity) (hstored : store.communities id = some (StoredRow.signed held))
    (hrun : forall step, step ∈ stepsOf W store applications ->
      exists held, ReadsRooted W id step held) :
    (exists head, (applyAll W store applications).communities id =
      some (StoredRow.signed head) ∧ chainOf held <+: chainOf head) ∧
    (forall step held, step ∈ stepsOf W store applications -> ReadsRooted W id step held ->
      step.1.Grows W step.2 held) ∧
    ((forall step held, step ∈ stepsOf W store applications -> ReadsRooted W id step held ->
        step.1.QuietWhenRefused W step.2 held) <->
      forall step held, step ∈ stepsOf W store applications -> ReadsRooted W id step held ->
        ¬ step.1.HalfApplied W held) ∧
    (forall (a : Application) (s : GroupStore) (new : SignedCommunity),
      a.WitnessOff -> a.Replaced W s new ->
      ((exists old founder, a.storedStanding W s =
          Except.ok (StoredStanding.stalled old founder) ∧
          Application.BirthLater old (chainOf a.offered)) ∨
        exists reason, a.storedStanding W s =
          Except.ok (StoredStanding.notRooted reason)) ∧
      (verifyChain W a.reads.toChainReads (chainOf a.offered)).outcome a.now = Except.ok () ∧
      chainOf new <+: chainOf a.offered) := by
  refine ⟨chain_prefix_applyAll hstored hrun, ?_, ?_, ?_⟩
  · intro step held _ hread
    exact Application.grows_of_rooted hread.off hread.rooted
  · have hstep : forall step held, ReadsRooted W id step held ->
        (step.1.QuietWhenRefused W step.2 held <-> ¬ step.1.HalfApplied W held) :=
      fun step held hread => Application.quietWhenRefused_iff hids hread.off hread.rooted
    constructor
    · intro hquiet step held hmem hread
      exact (hstep step held hread).mp (hquiet step held hmem hread)
    · intro hwhole step held hmem hread
      exact (hstep step held hread).mpr (hwhole step held hmem hread)
  · intro a s new hoff hreplaced
    exact Application.standing_of_replaced hoff hreplaced

end Runs

/-!
## Samples

A trust root of three founders under a quorum of two.  The hash of a record starts with
its id, after the id's length in unary.
-/

section Samples

local instance sampleExternal : External where
  parseRfc3339 := fun s =>
    if s = "1970-01-01T00:01:00Z" then some (Instant.ofSeconds 60)
    else if s = "1970-01-01T00:02:00Z" then some (Instant.ofSeconds 120)
    else none
  strictMajority := fun n => n / 2 + 1
  minUtc := -8334601228800000000000
  maxUtc := 8210266876799999999999

def taggedId (id rest : List Char) : List Char :=
  List.replicate id.length '1' ++ '0' :: (id ++ rest)

theorem taggedId_inj
    {a b r s : List Char} (h : taggedId a r = taggedId b s) :
    a = b := by
  have hcount : forall (n m : Nat) (x y : List Char),
      List.replicate n '1' ++ '0' :: x = List.replicate m '1' ++ '0' :: y -> n = m ∧ x = y := by
    intro n
    induction n with
    | zero =>
        intro m x y hxy
        cases m with
        | zero => exact ⟨rfl, (List.cons.inj hxy).2⟩
        | succ m => cases (List.cons.inj hxy).1
    | succ n ih =>
        intro m x y hxy
        cases m with
        | zero => cases (List.cons.inj hxy).1
        | succ m =>
            rcases ih m x y (List.cons.inj hxy).2 with ⟨hnm, hrest⟩
            exact ⟨congrArg Nat.succ hnm, hrest⟩
  rcases hcount _ _ _ _ h with ⟨hlen, hrest⟩
  exact List.append_inj_left hrest hlen

local instance sampleCodec : LineageCodec where
  rowHash := fun c => String.ofList (taggedId c.communityKeyId.toList
    (c.communityName.toList ++ c.prevHeadDigest.toList))
  signingEnvelope := fun c => .str c.communityName
  signingBytes := fun _ => some ""

theorem hashNamesId_sample :
    HashNamesId := by
  intro c d h
  exact String.toList_inj.mp (taggedId_inj (String.ofList_inj.mp h))

def sampleFounders : List String :=
  ["ada", "ben", "cyd"]

def sampleCommunity (name prevHeadDigest : String) : Community where
  communityKeyId := "r"
  communityName := name
  members := sampleFounders.map fun k => ⟨k, 0, some memberRoleFounder⟩
  foundedAt := 0
  consensusProtocol := "quorum:2/3"
  policyBlob := some (.obj [
    ("cohort_subkind", .str cohortSubkindInfrastructure),
    ("cohort_subkind_payload", .obj [("infrastructure_constraint",
      .obj [("admission_quorum_basis", .str admissionQuorumBasisFounders)])]),
    ("consensus_protocol_entrenched", .bool true)])
  prevHeadDigest := prevHeadDigest
  charterDigest := ""

def bornVersion : Version where
  community := sampleCommunity "a" ""
  authorityKeyId := "ada"
  scrubSignatureClassical := ""
  scrubSignaturePqc := none
  supersedeProof := none
  cosignatures := []

def amendedVersion (prior : Community) (next : Community) (amendedAt : String) : Version where
  community := next
  authorityKeyId := "ada"
  scrubSignatureClassical := ""
  scrubSignaturePqc := none
  supersedeProof := some {
    priorPersistRowHash := LineageCodec.rowHash prior
    changeEnvelope := .obj [
      ("family_key_id", .str next.communityKeyId),
      ("consensus_protocol", .str next.consensusProtocol),
      ("members", .arr (sampleFounders.map fun k => .obj [("key_id", .str k),
        ("role", .str memberRoleFounder)])),
      (nextPersistRowHash, .str (LineageCodec.rowHash next)),
      (amendedAtField, .str amendedAt)]
    quorumSignatures := [⟨"ada", "", none⟩, ⟨"ben", "", none⟩] }
  cosignatures := []

def secondVersion : Version :=
  amendedVersion bornVersion.community
    (sampleCommunity "b" (LineageCodec.rowHash bornVersion.community))
    "1970-01-01T00:01:00Z"

def unlinkedThird : Version :=
  amendedVersion secondVersion.community (sampleCommunity "c" "")
    "1970-01-01T00:02:00Z"

def willingReads : StandingReads where
  founderCounts := fun _ _ _ _ => pure true
  accordQuorumMet := fun _ => pure true
  keyRecord := fun k => some ⟨k, "", none, ["user"], 0, none, ""⟩
  verifiesSignature := fun _ _ _ => true
  nodeBearingAt := fun _ _ => false
  versionAdmitted := fun _ => true
  witness := fun _ => ⟨none, 0, none, none⟩

def offer (signed : SignedCommunity) : Application where
  reads := willingReads
  coversFold := fun _ _ _ => true
  now := Instant.ofSeconds 300
  offered := signed

def bornStore : GroupStore where
  communities := fun k => if k = "r" then
    some (.signed { bornVersion with lineage := [] }) else none
  groupVersions := []
  keyed := by
    intro k row h
    split at h
    · next hk =>
      cases h
      exact hk.symm
    · cases h

def secondOffer : Application :=
  offer { secondVersion with lineage := [bornVersion] }

def thirdOffer : Application :=
  offer { unlinkedThird with lineage := [bornVersion, secondVersion] }

theorem bornStore_readsRooted
    (signed : SignedCommunity) (hid : signed.community.communityKeyId = "r") :
    ReadsRooted Rat "r" (offer signed, bornStore) { bornVersion with lineage := [] } where
  offers := hid
  off := fun _ => rfl
  rooted := by
    have hrow : bornStore.communities (offer signed).id =
        some (.signed { bornVersion with lineage := [] }) := if_pos hid
    have hgrade : isTrustRootGrade bornVersion.community = true := by decide +kernel
    unfold Application.storedStanding
    rw [hrow]
    simp only [StoredRow.community, hgrade]
    rfl

theorem second_offer_grows :
    exists head,
      (applyAll Rat bornStore [secondOffer]).communities "r" =
        some (.signed head) ∧ [bornVersion] <+: chainOf head :=
  (rooted_lineage_only_grows hashNamesId_sample { bornVersion with lineage := [] } rfl
    (by
      intro step hstep
      cases List.mem_singleton.mp hstep
      exact ⟨_, bornStore_readsRooted _ rfl⟩)).1

/-- The third version is refused for the head it names, and the second stays: the offer
is refused and the stored row has changed. -/
theorem refused_offer_leaves_second :
    HashNamesId ∧
    ReadsRooted Rat "r" (thirdOffer, bornStore)
      { bornVersion with lineage := [] } ∧
    (thirdOffer.applyTrustRootChainCounted Rat bornStore).1.isOk = false ∧
    bornStore.communities "r" =
      some (.signed { bornVersion with lineage := [] }) ∧
    (thirdOffer.applyTrustRootChainCounted Rat bornStore).2.communities
        "r" =
      some (.signed { secondVersion with lineage := [bornVersion] }) :=
  ⟨hashNamesId_sample, bornStore_readsRooted _ rfl, by decide +kernel, rfl,
    by decide +kernel⟩

end Samples

end Lineage
end CirisPersist.Federation
