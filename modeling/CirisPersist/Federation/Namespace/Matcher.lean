import CirisPersist.Base.Text
import Mathlib.Data.Prod.Lex
import Std.Data.TreeMap

/-!
# The dimension matcher

A dimension is a `:`-separated path.  The registry lists families of dimensions, each by its
segments, and the matcher resolves a dimension to the most specific family that fits.  It
reads the input in several ways: with its last segment as a version, as part of the family,
or missing.  What no family claims is open vocabulary, unless it mutates a registered family
or sits below a fenced stem.
-/

namespace CirisPersist
namespace Federation
namespace Namespace

/-!
## The grammar
-/

inductive Refusal where
  | caseMalformed
  | familyUnregistered
  | missingVersionSegment
  | privateUseNotFederatable
  | vocabValueUnregistered
deriving DecidableEq

inductive SegmentClass where
  | literal
  | vocab
  | external
  | value
  | hex
  | wildcard
deriving DecidableEq

/-- A compiled pattern, which a segment matches as a whole or not at all. -/
abbrev Pattern :=
  String -> Bool

structure Seg where
  segment : String
  segmentClass : SegmentClass
  pattern : Option Pattern
  values : Option (List String)
  isOpen : Bool
  multi : Bool

def Seg.name (seg : Seg) : String :=
  Text.trimMatches (fun c => c == '\x7b' || c == '\x7d') seg.segment

def versionPlaceholder : String :=
  "\x7bversion\x7d"

structure Fam where
  familyPrefix : String
  segments : List Seg
  leaves : List String
  leavesClosed : Bool

namespace Fam

def lastClass (fam : Fam) : Option SegmentClass :=
  fam.segments.getLast?.map Seg.segmentClass

def endsVersion (fam : Fam) : Bool :=
  fam.segments.getLast?.any fun s => s.segment == versionPlaceholder

def score (fam : Fam) : Nat ×ₗ Nat ×ₗ Nat :=
  toLex ((fam.segments.filter fun s => s.segmentClass == .literal).length,
    toLex (if fam.lastClass = some .wildcard then 0 else 1, fam.segments.length))

end Fam

structure Rules where
  vocab : Pattern
  privateUse : String
  version : Pattern
  versionRequired : Bool
  exempt : List String
  external : List (String × Pattern)
  reservedStems : List String
  families : List Fam

namespace Rules

/-- Stems of the families that are closed in their leaves: a wildcard's prefix without its
`*`, else the first segment. -/
def closedStems (r : Rules) : List String :=
  (r.families.filter Fam.leavesClosed).map fun fam =>
    if fam.lastClass = some .wildcard then
      String.ofList fam.familyPrefix.toList.dropLast
    else
      (Text.split ':' fam.familyPrefix).headD "" ++ ":"

def fencedStems (r : Rules) : List String :=
  r.reservedStems ++ r.closedStems

def family (r : Rules) (familyPrefix : String) : Option Fam :=
  r.families.find? fun fam => fam.familyPrefix == familyPrefix

end Rules

/-!
## Fixed patterns

The shape of a hex value, and two detectors of version tails that are looser than the
registry's own pattern.
-/

def isDigit (c : Char) : Bool :=
  '0' ≤ c && c ≤ '9'

def isHexPattern (s : String) : Bool :=
  s != "" && s.toList.all fun c => isDigit c || ('a' ≤ c && c ≤ 'f')

def isVersionLike (s : String) : Bool :=
  match s.toList with
  | [] => false
  | c :: rest =>
      (c == 'v' || c == 'V') &&
        (Text.splitChars '.' rest).all fun piece => !piece.isEmpty && piece.all isDigit

/-- `v` or `V` and a digit, then letters, digits, `_`, `.` and `-`. -/
def isVersionAttempt (s : String) : Bool :=
  match s.toList with
  | c :: d :: rest =>
      (c == 'v' || c == 'V') && isDigit d && rest.all fun x =>
        isDigit x || ('A' ≤ x && x ≤ 'Z') || ('a' ≤ x && x ≤ 'z') || x == '_' || x == '.' ||
          x == '-'
  | _ => false

def mutatedTail (r : Rules) (seg : String) : Bool :=
  (isVersionLike seg && !r.version seg) || isVersionAttempt seg

/-!
## One family
-/

def malformedUnless (holds : Bool) : Option Refusal :=
  if holds then none else some .caseMalformed

def checkSeg (r : Rules) (seg : Seg) (got : String) : Option Refusal :=
  if got = "" then
    some .caseMalformed
  else if seg.segment = versionPlaceholder then
    malformedUnless (r.version got)
  else
    match seg.segmentClass with
    | .vocab =>
        if !r.vocab got then
          some .caseMalformed
        else
          match seg.values with
          | some values =>
              if !values.isEmpty && !seg.isOpen && !values.contains got then
                some .vocabValueUnregistered
              else
                none
          | none => none
    | .hex => malformedUnless ((seg.pattern.getD isHexPattern) got)
    | .external =>
        malformedUnless ((seg.pattern.or (r.external.lookup seg.name)).all fun p => p got)
    -- a value is verbatim, unless the row pins a shape
    | .value => malformedUnless (seg.pattern.all fun p => p got)
    | .literal => malformedUnless (seg.pattern.all fun p => p got)
    | .wildcard => malformedUnless (seg.pattern.all fun p => p got)

abbrev Binds :=
  Std.TreeMap String String

/-- A `multi` value is verbatim, and each of its components is checked alone. -/
def spanRefusal (r : Rules) (seg : Seg) (span : List String) (refusal : Option Refusal) :
    Option Refusal :=
  span.foldl (fun refusal got => refusal.or (checkSeg r seg got)) refusal

/-- The fixed segments against the parts.  The first `multi` segment takes `extra` parts more
than one; `spans` holds that number until the segment is met.  The parts left over, the values
bound and the first refusal are returned. -/
def matchFixed (r : Rules) : Option Nat -> List Seg -> List String -> Binds × Option Refusal ->
    Option (List String × Binds × Option Refusal)
  | _, [], parts, found => some (parts, found)
  | spans, seg :: segs, parts, (binds, refusal) =>
      match spans, seg.multi with
      | some extra, true =>
          let span := parts.take (1 + extra)
          -- the caller compared the lengths, so the span is never short
          if span.length ≠ 1 + extra then
            none
          else
            matchFixed r none segs (parts.drop (1 + extra))
              (binds.insert seg.name (String.intercalate ":" span),
                spanRefusal r seg span refusal)
      | _, _ =>
          match parts with
          | [] => none
          | got :: rest =>
              if seg.segmentClass = .literal then
                -- a different literal is not this family at all
                if seg.segment ≠ got then
                  none
                else
                  matchFixed r spans segs rest (binds, refusal)
              else
                matchFixed r spans segs rest
                  (binds.insert seg.name got, refusal.or (checkSeg r seg got))

def malformedLeaf (r : Rules) (got : String) (last : Bool) : Bool :=
  got == "" || !r.vocab got || isVersionLike got || (last && isVersionAttempt got)

def tailRefusal (r : Rules) : List String -> Option Refusal -> Option Refusal
  | [], refusal => refusal
  | got :: rest, refusal =>
      tailRefusal r rest
        (if malformedLeaf r got rest.isEmpty then refusal.or (some .caseMalformed)
          else refusal)

/-- The parts left for the first `multi` segment, or nothing when the lengths do not fit. -/
def extraParts (wildcard : Bool) (fixed : List Seg) (parts : List String) : Option Nat :=
  if wildcard then
    if parts.length < fixed.length + 1 then none else some 0
  else if fixed.any Seg.multi then
    if parts.length < fixed.length then none else some (parts.length - fixed.length)
  else if parts.length ≠ fixed.length then
    none
  else
    some 0

def bindTail (tail : List String) (binds : Binds) : Binds :=
  if tail.isEmpty then binds else binds.insert "*" (String.intercalate ":" tail)

def endsWildcard (segs : List Seg) : Bool :=
  segs.getLast?.any fun s => s.segmentClass == .wildcard

/-- The values bound and the refusal earned, or nothing when this is not the family at all. -/
def matchSegments (r : Rules) (segs : List Seg) (parts : List String) :
    Option (Binds × Option Refusal) :=
  let fixed := if endsWildcard segs then segs.dropLast else segs
  (extraParts (endsWildcard segs) fixed parts).bind fun extra =>
    (matchFixed r (some extra) fixed parts (∅, none)).map fun found =>
      (bindTail found.1 found.2.1, tailRefusal r found.1 found.2.2)

/-!
## The best family
-/

structure Resolved where
  fam : Fam
  binds : Binds
  refusal : Option Refusal
  hasVersion : Bool

def offer (best : Option Resolved) (fam : Fam) (found : Option (Binds × Option Refusal))
    (hasVersion : Bool) : Option Resolved :=
  match found with
  | none => best
  | some (binds, refusal) =>
      if best.all fun b => decide (b.fam.score < fam.score) then
        some ⟨fam, binds, refusal, hasVersion⟩
      else
        best

def isVersioned (r : Rules) (parts : List String) : Bool :=
  parts.getLast?.any r.version

/-- An unversioned input with a mutated tail is malformed whatever class absorbed it. -/
def refuseMutatedTail (r : Rules) (parts : List String) (found : Binds × Option Refusal) :
    Binds × Option Refusal :=
  (found.1, found.2.or
    (if !isVersioned r parts && parts.getLast?.any (mutatedTail r) then
      some .caseMalformed
    else
      none))

def resolveStep (r : Rules) (parts : List String) (best : Option Resolved) (fam : Fam) :
    Option Resolved :=
  if fam.endsVersion && !isVersioned r parts then
    -- by its other segments, the tail missing, and as written, the tail malformed
    offer (offer best fam (matchSegments r fam.segments.dropLast parts) false) fam
      (matchSegments r fam.segments parts) true
  else if fam.endsVersion || !isVersioned r parts then
    offer best fam ((matchSegments r fam.segments parts).map (refuseMutatedTail r parts))
      fam.endsVersion
  else if 1 < parts.length then
    offer best fam (matchSegments r fam.segments parts.dropLast) true
  else
    best

/-- A version-shaped last segment read as a value, for families that name no version. -/
def resolveAsValueStep (r : Rules) (parts : List String) (best : Option Resolved) (fam : Fam) :
    Option Resolved :=
  if fam.endsVersion then
    best
  else
    offer best fam (matchSegments r fam.segments parts) false

def resolve (r : Rules) (parts : List String) : Option Resolved :=
  match r.families.foldl (resolveStep r parts) none with
  | some best => some best
  | none =>
      if isVersioned r parts then
        r.families.foldl (resolveAsValueStep r parts) none
      else
        none

/-!
## A dimension
-/

/-- `str::to_lowercase`, which reads the Unicode tables. -/
class Lowercase where
  toLowercase : String -> String

/-- Python's `str.strip()` whitespace: `White_Space` and the four ASCII separators. -/
def isPySpace (c : Char) : Bool :=
  (9 ≤ c.toNat && c.toNat ≤ 13) || (0x1c ≤ c.toNat && c.toNat ≤ 0x20) || c.toNat == 0x85 ||
    c.toNat == 0xa0 || c.toNat == 0x1680 || (0x2000 ≤ c.toNat && c.toNat ≤ 0x200a) ||
    c.toNat == 0x2028 || c.toNat == 0x2029 || c.toNat == 0x202f || c.toNat == 0x205f ||
    c.toNat == 0x3000

structure FamilyMatch where
  family : Option String
  binds : Binds
  refusal : Option Refusal

namespace FamilyMatch

def bare (refusal : Option Refusal) : FamilyMatch :=
  ⟨none, ∅, refusal⟩

def malformedAs (family : String) : FamilyMatch :=
  ⟨some family, ∅, some .caseMalformed⟩

end FamilyMatch

def okLeaf (r : Rules) (fam : Fam) (leafParts : List String) : Bool :=
  fam.leaves.any fun l => (r.family l).any fun lf => (matchSegments r lf.segments leafParts).isSome

def leafParts (r : Rules) (parts : List String) (hasVersion : Bool) : List String :=
  if isVersioned r parts && hasVersion then parts.dropLast else parts

def matchClaimed (r : Rules) (parts : List String) (hit : Resolved) : FamilyMatch :=
  if hit.fam.leavesClosed && (hit.fam.lastClass = some .wildcard ||
      hit.fam.lastClass = some .vocab) &&
      !okLeaf r hit.fam (leafParts r parts hit.hasVersion) then
    ⟨some hit.fam.familyPrefix, hit.binds, some .familyUnregistered⟩
  else if r.versionRequired && !r.exempt.contains hit.fam.familyPrefix && !hit.hasVersion then
    ⟨some hit.fam.familyPrefix, hit.binds, some .missingVersionSegment⟩
  else if hit.hasVersion then
    ⟨some hit.fam.familyPrefix, hit.binds.insert "version" (parts.getLastD ""), none⟩
  else
    ⟨some hit.fam.familyPrefix, hit.binds, none⟩

section Matching

variable [Lowercase] (r : Rules)

/-- The readings of the parts that a mutation would make of a registered family: folded, and
without one or two version tails. -/
def mutations (parts : List String) : List (List String) :=
  let low := parts.map Lowercase.toLowercase
  let folded := if low ≠ parts then [low] else []
  let beforeLast := parts.dropLast
  let stripped :=
    if 1 < parts.length && parts.getLast?.any (fun p => isVersionLike p || isVersionAttempt p) then
      [beforeLast, low.dropLast] ++
        if 2 < parts.length && beforeLast.getLast?.any isVersionLike then
          [beforeLast.dropLast, low.dropLast.dropLast]
        else
          []
    else
      []
  folded ++ stripped

/-- The family that some mutation resolves to, without a refusal if only clean ones count. -/
def detectMalformed (parts : List String) (cleanOnly : Bool) : Option String :=
  (mutations parts).findSome? fun v =>
    ((resolve r v).filter fun hit => hit.refusal.isNone || !cleanOnly).map fun hit =>
      hit.fam.familyPrefix

def matchUnclaimed (dimension : String) (parts : List String) : FamilyMatch :=
  match detectMalformed r parts false with
  | some mutated => FamilyMatch.malformedAs mutated
  | none =>
      let low := Lowercase.toLowercase dimension
      if r.fencedStems.any fun stem => Text.startsWith stem dimension then
        FamilyMatch.bare (some .familyUnregistered)
      -- folded only to detect the fence
      else if low ≠ dimension ∧ r.fencedStems.any (fun stem => Text.startsWith stem low) then
        FamilyMatch.bare (some .caseMalformed)
      else
        let last := parts.getLastD ""
        if r.versionRequired && !r.version last then
          FamilyMatch.bare (some (if mutatedTail r last then .caseMalformed
            else .missingVersionSegment))
        else if parts.length < 2 || isVersionLike (parts.dropLast.getLastD "") then
          FamilyMatch.bare (some .caseMalformed)
        else
          FamilyMatch.bare none

def matchFamily (dimension : String) : FamilyMatch :=
  if dimension = "" ∨ Text.trimMatches isPySpace dimension ≠ dimension then
    FamilyMatch.bare (some .caseMalformed)
  else if Text.startsWith r.privateUse dimension then
    FamilyMatch.bare (some .privateUseNotFederatable)
  else
    let parts := Text.split ':' dimension
    if parts.any fun p => p == "" then
      FamilyMatch.bare (some .caseMalformed)
    else
      match resolve r parts with
      | none => matchUnclaimed r dimension parts
      | some hit =>
          if hit.refusal.isSome then
            -- a refused hit may be a mutation of another row that resolves cleanly
            match (detectMalformed r parts true).filter (· ≠ hit.fam.familyPrefix) with
            | some mutated => FamilyMatch.malformedAs mutated
            | none => ⟨some hit.fam.familyPrefix, hit.binds, hit.refusal⟩
          else
            matchClaimed r parts hit

end Matching

end Namespace
end Federation

namespace Reference

scoped instance lowercase : Federation.Namespace.Lowercase where
  toLowercase s := String.ofList (s.toList.map Char.toLower)

end Reference
end CirisPersist
