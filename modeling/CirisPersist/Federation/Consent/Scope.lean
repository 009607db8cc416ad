import CirisPersist.Base.Text
import CirisPersist.Base.External
import CirisPersist.Library.Checks

/-!
# Consent scope tokens

A consent statement names what it covers by tokens `kind[:sub...]`.  The kind
vocabulary is open; `share`, `retain` and `analyze` give their sub-scope a
meaning of their own.
-/

namespace CirisPersist.Federation

namespace CohortScope

def federation :=
  "federation"

def all : List String :=
  ["self", "family", "community", "affiliations", "species", "biosphere", federation]

def isValid (s : String) : Bool :=
  all.contains s

end CohortScope

namespace TransmissionPrinciple

def retain :=
  "retain"

def share :=
  "share"

def analyze :=
  "analyze"

end TransmissionPrinciple

/-!
## Tokens
-/

/-- A window is a length of time in nanoseconds, as instants are. -/
inductive SubScope where
  | whole
  | cohort (name : String)
  | window (length : Int)
  | family (name : String)
  | segments (names : List String)
deriving DecidableEq

structure ScopeToken where
  kind : String
  sub : SubScope
deriving DecidableEq

inductive ScopeTokenError where
  | empty
  | badSegment (token segment : String)
  | malformedSub (token kind expected : String)
  | cohortNotInVocabulary (token cohort : String)
deriving DecidableEq

def ScopeTokenError.message : ScopeTokenError -> String
  | empty => "scope token is empty"
  | badSegment token segment =>
      if segment = "" then
        "scope token `" ++ token ++ "` has an empty segment"
      else
        "scope token `" ++ token ++ "`: segment `" ++ segment ++
          "` is outside the grammar (kind `[a-z][a-z0-9_]*`, sub-scope segments `[a-z0-9_-]+`)"
  | malformedSub token kind expected =>
      "scope token `" ++ token ++ "`: the `" ++ kind ++ "` kind takes " ++ expected
  | cohortNotInVocabulary token cohort =>
      "scope token `" ++ token ++ "`: `" ++ cohort ++ "` is not a cohort scope (" ++
        String.intercalate " / " CohortScope.all ++ ")"

/-!
## Parsing
-/

def isAsciiLowercase (c : Char) : Bool :=
  'a' ≤ c && c ≤ 'z'

def isAsciiDigit (c : Char) : Bool :=
  '0' ≤ c && c ≤ '9'

def isKindChar (i : Nat) (c : Char) : Bool :=
  if i = 0 then
    isAsciiLowercase c
  else
    isAsciiLowercase c || isAsciiDigit c || c == '_'

def isSubChar (c : Char) : Bool :=
  isAsciiLowercase c || isAsciiDigit c || c == '_' || c == '-'

def maxDurationSeconds : Nat :=
  (2 ^ 63 - 1) / 1000

def tryDuration (n secondsPerUnit : Nat) : Option Int :=
  if n * secondsPerUnit ≤ maxDurationSeconds then
    some (Instant.ofSeconds (n * secondsPerUnit))
  else
    none

/-- `<n>d` or `<n>h`.  A signed number that starts with `-` parses to nothing
positive, so it is no window. -/
def parseWindow (s : String) : Option Int :=
  match s.toList.getLast? with
  | none => none
  | some unit =>
      match (Text.parseUnsigned (2 ^ 63) (String.ofList s.toList.dropLast)).filter (0 < ·) with
      | none => none
      | some n =>
          match unit with
          | 'd' => tryDuration n 86400
          | 'h' => tryDuration n 3600
          | _ => none

def shareExpected :=
  "`cohort:<cohort_scope>` (an audience narrowing)"

def retainExpected :=
  "`<n>d` or `<n>h` (a positive retention window)"

def analyzeExpected :=
  "`<family>` (one dimension family, e.g. `capacity`)"

def parseSub (token kind : String) (subs : List String) : Except ScopeTokenError SubScope :=
  if subs = [] then
    .ok .whole
  else if kind = TransmissionPrinciple.share then
    match subs with
    | ["cohort", cohort] =>
        if CohortScope.isValid cohort then
          .ok (.cohort cohort)
        else
          .error (.cohortNotInVocabulary token cohort)
    | _ => .error (.malformedSub token kind shareExpected)
  else if kind = TransmissionPrinciple.retain then
    match subs with
    | [window] =>
        match parseWindow window with
        | some length => .ok (.window length)
        | none => .error (.malformedSub token kind retainExpected)
    | _ => .error (.malformedSub token kind retainExpected)
  else if kind = TransmissionPrinciple.analyze then
    match subs with
    | [family] => .ok (.family family)
    | _ => .error (.malformedSub token kind analyzeExpected)
  else
    .ok (.segments subs)

def parseScopeToken (token : String) : Except ScopeTokenError ScopeToken :=
  if token = "" then
    .error .empty
  else
    let kind := (Text.split ':' token).headD ""
    let subs := (Text.split ':' token).tail
    if kind = "" ∨ ¬ kind.toList.zipIdx.all (fun (c, i) => isKindChar i c) then
      .error (.badSegment token kind)
    else
      match subs.find? (fun s => s = "" ∨ ¬ s.toList.all isSubChar) with
      | some s => .error (.badSegment token s)
      | none => (parseSub token kind subs).map fun sub => ⟨kind, sub⟩

/-!
## Covering

A bare token is the widest grant and the widest ask.  A retention window bounds
a grant and is no criterion of a match.
-/

def cohortRank (s : String) : Nat :=
  (CohortScope.all.findIdx? (· == s)).getD 0

def covers (grant query : ScopeToken) : Bool :=
  grant.kind == query.kind &&
    match grant.sub, query.sub with
    | .whole, _ => true
    | .window _, _ => true
    | .cohort g, .cohort q => decide (cohortRank q ≤ cohortRank g)
    | .cohort g, .whole => g == CohortScope.federation
    | .family g, .family q => g == q
    | .segments g, .segments q => g.isPrefixOf q
    | _, _ => false

def retainUntil (grant : ScopeToken) (assertedAt : Instant) : Option Instant :=
  match grant.sub with
  | .window w =>
      if grant.kind = TransmissionPrinciple.retain then some (assertedAt + w) else none
  | _ => none

example : (parseScopeToken "retain:90d").toOption =
    some ⟨"retain", .window (Instant.ofSeconds (90 * 86400))⟩ := by decide

example : (parseScopeToken "retain:0d").toOption = none := by decide

/-!
## What the parser makes

The kind of a parsed token fixes the form of its sub-scope.
-/

theorem tryDuration_pos
    {n unit : Nat} {d : Int} (hn : 0 < n) (hunit : 0 < unit) (h : tryDuration n unit = some d) :
    0 < d := by
  unfold tryDuration at h
  split at h
  · cases h
    have hpos : (0 : Int) < n * unit :=
      Int.mul_pos (Int.natCast_pos.mpr hn) (Int.natCast_pos.mpr hunit)
    exact Int.mul_pos hpos (by decide)
  · cases h

theorem parseWindow_pos
    {s : String} {w : Int} (h : parseWindow s = some w) :
    0 < w := by
  unfold parseWindow at h
  split at h
  · cases h
  · split at h
    · cases h
    · rename_i n hn
      have hpos : 0 < n := of_decide_eq_true (Option.filter_eq_some_iff.mp hn).2
      split at h
      · exact tryDuration_pos hpos (by decide) h
      · exact tryDuration_pos hpos (by decide) h
      · cases h

inductive ScopeToken.Shaped : ScopeToken -> Prop where
  | whole (kind : String) : Shaped ⟨kind, .whole⟩
  | cohort {kind name : String} (hkind : kind = TransmissionPrinciple.share)
      (hvalid : CohortScope.isValid name = true) : Shaped ⟨kind, .cohort name⟩
  | window {kind : String} {w : Int} (hkind : kind = TransmissionPrinciple.retain)
      (hpos : 0 < w) : Shaped ⟨kind, .window w⟩
  | family {kind : String} (name : String) (hkind : kind = TransmissionPrinciple.analyze) :
      Shaped ⟨kind, .family name⟩
  | segments {kind : String} (names : List String)
      (hshare : kind ≠ TransmissionPrinciple.share)
      (hretain : kind ≠ TransmissionPrinciple.retain)
      (hanalyze : kind ≠ TransmissionPrinciple.analyze) : Shaped ⟨kind, .segments names⟩

theorem shaped_of_parseSub
    {token kind : String} {subs : List String} {sub : SubScope}
    (h : parseSub token kind subs = .ok sub) :
    ScopeToken.Shaped ⟨kind, sub⟩ := by
  unfold parseSub at h
  split at h
  · cases h
    exact ScopeToken.Shaped.whole kind
  · split at h
    · rename_i hshare
      split at h
      · split at h
        · rename_i hvalid
          cases h
          exact ScopeToken.Shaped.cohort hshare hvalid
        · cases h
      · cases h
    · rename_i hshare
      split at h
      · rename_i hretain
        split at h
        · split at h
          · rename_i hwindow
            cases h
            exact ScopeToken.Shaped.window hretain (parseWindow_pos hwindow)
          · cases h
        · cases h
      · rename_i hretain
        split at h
        · rename_i hanalyze
          split at h
          · cases h
            exact ScopeToken.Shaped.family _ hanalyze
          · cases h
        · rename_i hanalyze
          cases h
          exact ScopeToken.Shaped.segments subs hshare hretain hanalyze

theorem shaped_of_parseScopeToken
    {text : String} {token : ScopeToken} (h : parseScopeToken text = .ok token) :
    token.Shaped := by
  unfold parseScopeToken at h
  split at h
  · cases h
  · dsimp only at h
    split at h
    · cases h
    · split at h
      · cases h
      · rcases Checks.map_eq_ok_iff.mp h with ⟨sub, hsub, rfl⟩
        exact shaped_of_parseSub hsub

end CirisPersist.Federation
