import CirisPersist.Base.Text
import CirisPersist.Base.External

/-!
# Reverse-quorum policies

A `reverse_quorum:{m}/{n}:{window}` protocol lets one member act at once and
lets `m` members undo the action inside the objection window.  This module
holds the parsed policy, its windows and its thresholds.  The denominator `n`
of the string is checked and then never read again; the live roster counts.
-/

namespace CirisPersist.Federation

/-!
## Protocol vocabulary

The canonical `consensus_protocol` forms.
-/

namespace ConsensusProtocol

def founderOnly := "founder_only"

def unanimous := "unanimous"

def majority := "majority"

def quorumPrefix := "quorum:"

def weightedPrefix := "weighted:"

def customPrefix := "custom:"

def reverseQuorumPrefix := "reverse_quorum:"

def openSelfAdmit := "open:self_admit"

end ConsensusProtocol

/-!
## The policy and its parser
-/

def escalationRespondentFloor : Nat :=
  3

def escalateInfix :=
  "+escalate:"

structure StewardTier where
  windowSecs : Nat
  respondentFloor : Nat
deriving DecidableEq

structure ReverseQuorumPolicy where
  m : Nat
  n : Nat
  windowSecs : Nat
  steward : Option StewardTier
deriving DecidableEq

namespace ReverseQuorumPolicy

def parseSteward (rest : String) : Option StewardTier := do
  let (secs, floor) ← Text.splitOnce ":" rest
  let stewardWindow ← Text.parseUnsigned (2 ^ 64) secs
  let respondentFloor ← Text.parseUnsigned (2 ^ 64) floor
  if respondentFloor < escalationRespondentFloor then
    none
  else
    some { windowSecs := stewardWindow, respondentFloor := respondentFloor }

/-- The steward tier is split off first; the degenerate shapes `m = 0`, `n = 0`
and `m > n` do not parse. -/
def parse (s : String) : Option ReverseQuorumPolicy := do
  let tail ← Text.stripPrefix ConsensusProtocol.reverseQuorumPrefix s
  let (base, escalate) := match Text.splitOnce escalateInfix tail with
    | some (base, rest) => (base, some rest)
    | none => (tail, none)
  let (quorum, window) ← Text.splitOnce ":" base
  let (mText, nText) ← Text.splitOnce "/" quorum
  let m ← Text.parseU32 mText
  let n ← Text.parseU32 nText
  let windowSecs ← Text.parseUnsigned (2 ^ 64) window
  if m = 0 ∨ n = 0 ∨ n < m then
    none
  else
    match escalate with
    | none => some { m, n, windowSecs, steward := none }
    | some rest => do
        let tier ← parseSteward rest
        some { m, n, windowSecs, steward := some tier }

def toProtocolString (policy : ReverseQuorumPolicy) : String :=
  let base := ConsensusProtocol.reverseQuorumPrefix ++ toString policy.m ++ "/"
    ++ toString policy.n ++ ":" ++ toString policy.windowSecs
  match policy.steward with
  | none => base
  | some tier =>
      base ++ escalateInfix ++ toString tier.windowSecs ++ ":"
        ++ toString tier.respondentFloor

variable {policy : ReverseQuorumPolicy}

theorem startsWith_of_parse
    {s : String} (h : parse s = some policy) :
    Text.startsWith ConsensusProtocol.reverseQuorumPrefix s = true := by
  rcases Option.bind_eq_some_iff.mp h with ⟨tail, htail, -⟩
  exact Text.startsWith_of_stripPrefix htail

/-!
## The protocol string

A rendered number has digits only, so every separator of the string is the one that was
written there.
-/

/-- The values of the source's types: `u32`, `u64` and `usize`, of 64 bits. -/
structure InRange (policy : ReverseQuorumPolicy) : Prop where
  m : policy.m < 2 ^ 32
  n : policy.n < 2 ^ 32
  windowSecs : policy.windowSecs < 2 ^ 64
  steward : forall tier, policy.steward = some tier ->
    tier.windowSecs < 2 ^ 64 ∧ tier.respondentFloor < 2 ^ 64

structure Declarable (policy : ReverseQuorumPolicy) : Prop where
  pos : 0 < policy.m
  le : policy.m ≤ policy.n
  floor : forall tier, policy.steward = some tier ->
    escalationRespondentFloor ≤ tier.respondentFloor

def baseText (policy : ReverseQuorumPolicy) : String :=
  (toString policy.m ++ ("/" ++ toString policy.n)) ++ (":" ++ toString policy.windowSecs)

def stewardText (tier : StewardTier) : String :=
  toString tier.windowSecs ++ (":" ++ toString tier.respondentFloor)

theorem toProtocolString_eq
    (policy : ReverseQuorumPolicy) :
    policy.toProtocolString = ConsensusProtocol.reverseQuorumPrefix ++
      match policy.steward with
      | none => policy.baseText
      | some tier => policy.baseText ++ (escalateInfix ++ stewardText tier) := by
  unfold toProtocolString
  cases policy.steward with
  | none => simp only [baseText, String.append_assoc]
  | some tier => simp only [baseText, stewardText, String.append_assoc]

theorem notMem_quorumText
    {c : Char} (hdigit : c.isDigit = false) (hslash : c ≠ '/') (policy : ReverseQuorumPolicy) :
    c ∉ (toString policy.m ++ ("/" ++ toString policy.n)).toList := by
  have hm : c ∉ policy.m.repr.toList := Text.notMem_repr_of_not_isDigit hdigit _
  have hn : c ∉ policy.n.repr.toList := Text.notMem_repr_of_not_isDigit hdigit _
  simp only [String.toList_append, List.mem_append, not_or]
  exact ⟨hm, by simpa using hslash, hn⟩

theorem notMem_baseText
    {c : Char} (hdigit : c.isDigit = false) (hslash : c ≠ '/') (hcolon : c ≠ ':')
    (policy : ReverseQuorumPolicy) :
    c ∉ policy.baseText.toList := by
  have hquorum := notMem_quorumText hdigit hslash policy
  have hw : c ∉ policy.windowSecs.repr.toList := Text.notMem_repr_of_not_isDigit hdigit _
  have hwindow : c ∉ (":" ++ toString policy.windowSecs).toList := by
    rw [String.toList_append, List.mem_append, not_or]
    exact ⟨by simpa using hcolon, hw⟩
  rw [baseText, String.toList_append, List.mem_append, not_or]
  exact ⟨hquorum, hwindow⟩

theorem splitOnce_baseText
    (policy : ReverseQuorumPolicy) :
    Text.splitOnce ":" policy.baseText =
      some (toString policy.m ++ ("/" ++ toString policy.n), toString policy.windowSecs) :=
  Text.splitOnce_append _ rfl (notMem_quorumText (by decide) (by decide) policy)

theorem splitOnce_quorumText
    (policy : ReverseQuorumPolicy) :
    Text.splitOnce "/" (toString policy.m ++ ("/" ++ toString policy.n)) =
      some (toString policy.m, toString policy.n) :=
  Text.splitOnce_append _ rfl (Text.notMem_repr_of_not_isDigit (by decide) _)

theorem splitOnce_stewardText
    (tier : StewardTier) :
    Text.splitOnce ":" (stewardText tier) =
      some (toString tier.windowSecs, toString tier.respondentFloor) :=
  Text.splitOnce_append _ rfl (Text.notMem_repr_of_not_isDigit (by decide) _)

theorem parseSteward_stewardText
    {tier : StewardTier} (hwindow : tier.windowSecs < 2 ^ 64) (hrange : tier.respondentFloor < 2 ^ 64)
    (hfloor : escalationRespondentFloor ≤ tier.respondentFloor) :
    parseSteward (stewardText tier) = some tier := by
  have hsecs : Text.parseUnsigned (2 ^ 64) (toString tier.windowSecs) = some tier.windowSecs :=
    Text.parseUnsigned_repr hwindow
  have hrespondents :
      Text.parseUnsigned (2 ^ 64) (toString tier.respondentFloor) = some tier.respondentFloor :=
    Text.parseUnsigned_repr hrange
  simp only [parseSteward, splitOnce_stewardText, Option.bind_eq_bind, Option.bind_some, hsecs,
    hrespondents, if_neg (Nat.not_lt.mpr hfloor)]

theorem parse_toProtocolString
    (hrange : policy.InRange) (hdeclared : policy.Declarable) :
    parse policy.toProtocolString = some policy := by
  have hm : Text.parseU32 (toString policy.m) = some policy.m := Text.parseUnsigned_repr hrange.m
  have hn : Text.parseU32 (toString policy.n) = some policy.n := Text.parseUnsigned_repr hrange.n
  have hwindow : Text.parseUnsigned (2 ^ 64) (toString policy.windowSecs) = some policy.windowSecs :=
    Text.parseUnsigned_repr hrange.windowSecs
  have hshape : ¬ (policy.m = 0 ∨ policy.n = 0 ∨ policy.n < policy.m) := by
    have hpos := hdeclared.pos
    have hle := hdeclared.le
    omega
  have hplus : '+' ∉ policy.baseText.toList :=
    notMem_baseText (by decide) (by decide) (by decide) policy
  rw [toProtocolString_eq]
  cases hsteward : policy.steward with
  | none =>
      have hinfix : Text.splitOnce escalateInfix policy.baseText = none :=
        Text.splitOnce_eq_none rfl hplus
      simp only [parse, Text.stripPrefix_append_self, Option.bind_eq_bind, Option.bind_some, hinfix,
        splitOnce_baseText, splitOnce_quorumText, hm, hn, hwindow, if_neg hshape]
      rw [← hsteward]
  | some tier =>
      have hinfix : Text.splitOnce escalateInfix
          (policy.baseText ++ (escalateInfix ++ stewardText tier)) =
            some (policy.baseText, stewardText tier) :=
        Text.splitOnce_append _ rfl hplus
      have htier := hrange.steward tier hsteward
      simp only [parse, Text.stripPrefix_append_self, Option.bind_eq_bind, Option.bind_some, hinfix,
        splitOnce_baseText, splitOnce_quorumText, hm, hn, hwindow, if_neg hshape,
        parseSteward_stewardText htier.1 htier.2 (hdeclared.floor tier hsteward)]
      rw [← hsteward]

theorem parseSteward_bounds
    {rest : String} {tier : StewardTier} (h : parseSteward rest = some tier) :
    tier.windowSecs < 2 ^ 64 ∧ tier.respondentFloor < 2 ^ 64 ∧
      escalationRespondentFloor ≤ tier.respondentFloor := by
  simp only [parseSteward, Option.bind_eq_bind, Option.bind_eq_some_iff,
    Option.ite_none_left_eq_some, Option.some.injEq] at h
  rcases h with ⟨parts, _, secs, hsecs, respondents, hrespondents, hfloor, rfl⟩
  exact ⟨Text.parseUnsigned_lt hsecs, Text.parseUnsigned_lt hrespondents, Nat.le_of_not_lt hfloor⟩

theorem bounds_of_parse
    {s : String} (h : parse s = some policy) :
    policy.InRange ∧ policy.Declarable := by
  simp only [parse, Option.bind_eq_bind, Option.bind_eq_some_iff, Option.ite_none_left_eq_some] at h
  rcases h with ⟨tail, _, qw, _, mn, _, m, hm, n, hn, w, hw, hshape, h⟩
  have hm' : m < 2 ^ 32 := Text.parseUnsigned_lt hm
  have hn' : n < 2 ^ 32 := Text.parseUnsigned_lt hn
  have hw' : w < 2 ^ 64 := Text.parseUnsigned_lt hw
  have hpos : 0 < m ∧ m ≤ n := by omega
  split at h
  · cases h
    exact ⟨⟨hm', hn', hw', nofun⟩, ⟨hpos.1, hpos.2, nofun⟩⟩
  · rcases Option.bind_eq_some_iff.mp h with ⟨tier, htier, heq⟩
    cases heq
    have hbounds := parseSteward_bounds htier
    refine ⟨⟨hm', hn', hw', ?_⟩, ⟨hpos.1, hpos.2, ?_⟩⟩
    · intro tier' heq
      cases heq
      exact ⟨hbounds.1, hbounds.2.1⟩
    · intro tier' heq
      cases heq
      exact hbounds.2.2

/-- The protocol string and the policy stand for each other. -/
theorem protocol_string_codec :
    (forall policy : ReverseQuorumPolicy, policy.InRange -> policy.Declarable ->
      parse policy.toProtocolString = some policy) ∧
    (forall policy policy' : ReverseQuorumPolicy, policy.InRange -> policy.Declarable ->
      policy'.InRange -> policy'.Declarable ->
      policy.toProtocolString = policy'.toProtocolString -> policy = policy') ∧
    (forall s policy, parse s = some policy ->
      policy.InRange ∧ policy.Declarable ∧ parse policy.toProtocolString = some policy) := by
  refine ⟨?_, ?_, ?_⟩
  · intro policy hrange hdeclared
    exact parse_toProtocolString hrange hdeclared
  · intro policy policy' hrange hdeclared hrange' hdeclared' heq
    have hparse := parse_toProtocolString hrange hdeclared
    rw [heq, parse_toProtocolString hrange' hdeclared'] at hparse
    exact (Option.some.inj hparse).symm
  · intro s policy h
    have hbounds := bounds_of_parse h
    exact ⟨hbounds.1, hbounds.2, parse_toProtocolString hbounds.1 hbounds.2⟩

/-- A declaration with signs and leading zeros is rendered without them and stays the same. -/
theorem protocol_string_codec_of_padded :
    parse "reverse_quorum:+02/5:3600+escalate:060:3" =
        some ⟨2, 5, 3600, some ⟨60, 3⟩⟩ ∧
      parse (toProtocolString ⟨2, 5, 3600, some ⟨60, 3⟩⟩) = some ⟨2, 5, 3600, some ⟨60, 3⟩⟩ := by
  have hparse : parse "reverse_quorum:+02/5:3600+escalate:060:3" =
      some ⟨2, 5, 3600, some ⟨60, 3⟩⟩ := by
    decide
  exact ⟨hparse, (protocol_string_codec.2.2 _ _ hparse).2.2⟩

/-!
## Windows

Both windows open at the action's own instant.  An addition past the last
representable instant saturates there.
-/

section Windows

variable [External]

def saturatingAdd (t : Instant) (secs : Nat) : Instant :=
  min (t + Instant.ofSeconds secs) External.maxUtc

def window (policy : ReverseQuorumPolicy) (assertedAt : Instant) :
    Instant × Instant :=
  (assertedAt, saturatingAdd assertedAt policy.windowSecs)

def stewardDeadline (policy : ReverseQuorumPolicy) (assertedAt : Instant) :
    Option Instant :=
  policy.steward.map fun tier =>
    saturatingAdd (policy.window assertedAt).2 tier.windowSecs

end Windows

/-!
## Thresholds

The protective threshold is capped at the live roster; the undo threshold is
floored at a strict majority of it.
-/

def reversalThreshold (policy : ReverseQuorumPolicy) (rosterSize : Nat) : Nat :=
  min policy.m (max rosterSize 1)

def dismissalThreshold [External] (policy : ReverseQuorumPolicy)
    (rosterSize : Nat) : Nat :=
  max (max policy.m (External.strictMajority rosterSize)) 1

def stewardRulingThreshold [External] (dutyHolders : Nat) : Nat :=
  max (External.strictMajority dutyHolders) 1

end ReverseQuorumPolicy

def escalatedDismissalRequired [External] (policy : ReverseQuorumPolicy)
    (respondents : Nat) : Nat :=
  let declaredFloor :=
    (policy.steward.map StewardTier.respondentFloor).getD escalationRespondentFloor
  max (max (policy.dismissalThreshold respondents) declaredFloor)
    escalationRespondentFloor

def objectionThreshold : Nat :=
  1

def dismissalRequired [External] (policy : ReverseQuorumPolicy)
    (rosterSize : Nat) (selfDismissal : Bool) : Nat :=
  if selfDismissal then
    objectionThreshold
  else
    policy.dismissalThreshold rosterSize

example :
    ReverseQuorumPolicy.parse "reverse_quorum:2/5:3600+escalate:60:3" =
      some { m := 2, n := 5, windowSecs := 3600,
             steward := some { windowSecs := 60, respondentFloor := 3 } } := by
  decide

end CirisPersist.Federation
