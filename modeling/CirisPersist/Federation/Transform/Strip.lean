import CirisPersist.Base.Text
import CirisPersist.Base.Json

/-!
# Stripping fields from an envelope

A consent grant may ask that fields are stripped before a row is promoted.  Each
`strip_field` restriction becomes one stage of a transform pipeline: a path of
segments separated by `/`, where `*` stands for every member or element of its
level.  A path that names a protected member of the root is refused.  The guard
compares the one segment as it is written, so the path `*` passes it.
-/

namespace CirisPersist.Federation

inductive TransformError where
  | notYetImplemented (op : String)
  | typeMismatch (expected got : String)
deriving DecidableEq

/-- The opcodes other than `strip_field` enter as the function they compute. -/
inductive TransformOp where
  | stripField (path : String)
  | opcode (run : Json -> Except TransformError Json)

namespace Transform

/-!
## One stage
-/

def protectedRootMembers : List String :=
  ["dimension", "trace_id", "asserted_at", "expires_at", "row", "delivery_mode",
    "deletion_window"]

def wildcard : String :=
  "*"

def pathSegments (path : String) : List String :=
  (Text.split '/' (Text.trimStartMatches '/' path)).filter fun s => s ≠ ""

def arrayIndex (segment : String) : Option Nat :=
  Text.parseUnsigned (2 ^ 64) segment

def stripTerminal (head : String) : Json -> Json
  | .obj fields =>
      if head = wildcard then .obj [] else .obj (fields.filter fun f => f.1 ≠ head)
  | .arr items =>
      if head = wildcard then
        .arr []
      else
        match arrayIndex head with
        | some i => .arr (items.eraseIdx i)
        | none => .arr items
  | v => v

/-- The segments before it are descended; one that finds nothing ends the stage. -/
def descend (head : String) (next : Json -> Json) : Json -> Json
  | .obj fields =>
      if head = wildcard then
        .obj (fields.map fun f => (f.1, next f.2))
      else
        .obj (fields.map fun f => (f.1, if f.1 = head then next f.2 else f.2))
  | .arr items =>
      if head = wildcard then
        .arr (items.map next)
      else
        match arrayIndex head with
        | some i => .arr (items.modify i next)
        | none => .arr items
  | v => v

def stripFieldRecursive : List String -> Json -> Json
  | [] => fun v => v
  | [head] => stripTerminal head
  | head :: second :: rest => descend head (stripFieldRecursive (second :: rest))

/-- The path resolves to the root itself or names a protected member of it. -/
def refusedAtRoot (segments : List String) : Bool :=
  segments.isEmpty || (segments.length == 1 && segments.any protectedRootMembers.contains)

def stripFieldImpl (envelope : Json) (path : String) : Json :=
  if refusedAtRoot (pathSegments path) then
    envelope
  else
    stripFieldRecursive (pathSegments path) envelope

/-!
## Pipelines
-/

def apply (op : TransformOp) (input : Json) : Except TransformError Json :=
  match op with
  | .stripField path => .ok (stripFieldImpl input path)
  | .opcode run => run input

def applyAll : List TransformOp -> Json -> Except TransformError Json
  | [], input => .ok input
  | op :: rest, input => do
      let current ← apply op input
      applyAll rest current

end Transform

inductive RestrictionOp where
  | stripField (path : String)
  | recipientCapability (capability : String)
deriving DecidableEq

def toTransformOps (restrictions : List RestrictionOp) : List TransformOp :=
  restrictions.filterMap fun
    | .stripField path => some (.stripField path)
    | .recipientCapability _ => none

namespace Transform

def stripStages (paths : List String) : List TransformOp :=
  paths.map .stripField

def stripAll (paths : List String) (envelope : Json) : Json :=
  paths.foldl stripFieldImpl envelope

theorem applyAll_stripStages
    (paths : List String) :
    forall envelope, applyAll (stripStages paths) envelope = .ok (stripAll paths envelope) := by
  induction paths with
  | nil =>
      intro envelope
      rfl
  | cons path rest ih =>
      intro envelope
      simp only [stripStages, List.map_cons, applyAll, apply, stripAll, List.foldl_cons]
      exact ih (stripFieldImpl envelope path)

theorem toTransformOps_eq_stripStages
    (restrictions : List RestrictionOp) :
    toTransformOps restrictions = stripStages (restrictions.filterMap fun
      | .stripField path => some path
      | .recipientCapability _ => none) := by
  induction restrictions with
  | nil => rfl
  | cons restriction rest ih =>
      cases restriction with
      | stripField path =>
          simp only [toTransformOps, stripStages, List.filterMap_cons, List.map_cons] at ih ⊢
          rw [ih]
      | recipientCapability capability =>
          simp only [toTransformOps, stripStages, List.filterMap_cons] at ih ⊢
          rw [ih]

/-!
## Members of the root

A stage on an object leaves an object, and says of each member what became of it.
-/

theorem lookup_filter_ne
    (head k : String) (fields : List (String × Json)) :
    (fields.filter fun f => f.1 ≠ head).lookup k = if k = head then none else fields.lookup k := by
  induction fields with
  | nil => simp
  | cons f rest ih =>
      by_cases hhead : f.1 = head
      · rw [List.filter_cons_of_neg (by simpa using hhead), ih, List.lookup_cons]
        by_cases hk : k = head
        · simp [hk]
        · have hne : (k == f.1) = false := by
            simpa [hhead] using hk
          simp [hk, hne]
      · rw [List.filter_cons_of_pos (by simpa using hhead), List.lookup_cons, List.lookup_cons, ih]
        by_cases hkey : k = f.1
        · simp [hkey, hhead]
        · have hne : (k == f.1) = false := by
            simpa using hkey
          simp [hne]

theorem lookup_map_value
    (g : String -> Json -> Json) (k : String) (fields : List (String × Json)) :
    (fields.map fun f => (f.1, g f.1 f.2)).lookup k = (fields.lookup k).map (g k) := by
  induction fields with
  | nil => rfl
  | cons f rest ih =>
      rw [List.map_cons, List.lookup_cons, List.lookup_cons, ih]
      cases hkey : k == f.1 with
      | false => rfl
      | true =>
          rw [eq_of_beq hkey]
          rfl

theorem descend_obj
    (head : String) (next : Json -> Json) (fields : List (String × Json)) :
    descend head next (.obj fields) = .obj (fields.map fun f =>
        (f.1, if head = wildcard ∨ f.1 = head then next f.2 else f.2)) := by
  unfold descend
  by_cases hstar : head = wildcard
  · simp [hstar]
  · simp [hstar]

theorem get_stripFieldRecursive
    (segments : List String) (hsegments : segments ≠ []) (fields : List (String × Json))
    (k : String) :
    (stripFieldRecursive segments (.obj fields)).get? k =
      if segments = [wildcard] ∨ segments = [k] then none
      else ((Json.obj fields).get? k).map fun v =>
        if segments.head? = some wildcard ∨ segments.head? = some k then
          stripFieldRecursive segments.tail v
        else
          v := by
  cases segments with
  | nil => exact absurd rfl hsegments
  | cons head rest =>
      cases rest with
      | nil =>
          simp only [stripFieldRecursive, stripTerminal]
          by_cases hstar : head = wildcard
          · simp [hstar, Json.get?]
          · simp only [hstar, if_false, Json.get?, lookup_filter_ne]
            by_cases hk : k = head
            · simp [hk]
            · have hk' : Not (head = k) := fun h => hk h.symm
              simp [hk, hk', hstar]
      | cons second rest =>
          simp only [stripFieldRecursive, descend_obj, Json.get?]
          rw [lookup_map_value (fun name v => if head = wildcard ∨ name = head then
            stripFieldRecursive (second :: rest) v else v)]
          simp [eq_comm]

theorem stripFieldRecursive_obj
    (segments : List String) (fields : List (String × Json)) :
    exists fields', stripFieldRecursive segments (.obj fields) = .obj fields' := by
  cases segments with
  | nil => exact ⟨fields, rfl⟩
  | cons head rest =>
      cases rest with
      | nil =>
          by_cases hstar : head = wildcard
          · exact ⟨[], by simp [stripFieldRecursive, stripTerminal, hstar]⟩
          · exact ⟨_, by simp only [stripFieldRecursive, stripTerminal, hstar, if_false]; rfl⟩
      | cons second rest => exact ⟨_, descend_obj _ _ _⟩

def isBareWildcard (path : String) : Bool :=
  pathSegments path == [wildcard]

theorem stripFieldImpl_obj
    (path : String) (fields : List (String × Json)) :
    exists fields', stripFieldImpl (.obj fields) path = .obj fields' := by
  unfold stripFieldImpl
  split
  · exact ⟨fields, rfl⟩
  · exact stripFieldRecursive_obj _ fields

variable {k : String}

theorem get_stripFieldImpl_of_protected
    {path : String} {fields : List (String × Json)} {v : Json} (hpath : isBareWildcard path = false)
    (hk : k ∈ protectedRootMembers) (hv : (Json.obj fields).get? k = some v) :
    exists v', (stripFieldImpl (.obj fields) path).get? k = some v' ∧
      ((pathSegments path).length ≤ 1 -> v' = v) := by
  unfold stripFieldImpl
  by_cases hrefused : refusedAtRoot (pathSegments path) = true
  · exact ⟨v, by rw [if_pos hrefused, hv], fun _ => rfl⟩
  · rw [if_neg hrefused]
    have hnil : pathSegments path ≠ [] := by
      intro hnil
      simp [refusedAtRoot, hnil] at hrefused
    have hnotStar : pathSegments path ≠ [wildcard] := by
      simpa [isBareWildcard] using hpath
    have hnotKey : pathSegments path ≠ [k] := by
      intro hkey
      simp [refusedAtRoot, hkey, hk] at hrefused
    rw [get_stripFieldRecursive _ hnil, if_neg (not_or.mpr ⟨hnotStar, hnotKey⟩), hv]
    refine ⟨_, rfl, ?_⟩
    intro hshort
    -- a single segment names another member
    cases hsegments : pathSegments path with
    | nil => exact absurd hsegments hnil
    | cons head rest =>
        rw [hsegments] at hshort hnotStar hnotKey
        have hrest : rest = [] := List.length_eq_zero_iff.mp (by simpa using hshort)
        subst hrest
        have hstar : head ≠ wildcard := by simpa using hnotStar
        have hne : head ≠ k := by simpa using hnotKey
        simp [hstar, hne]

theorem get_stripFieldImpl_of_none
    (path : String) {fields : List (String × Json)} (hnone : (Json.obj fields).get? k = none) :
    (stripFieldImpl (.obj fields) path).get? k = none := by
  unfold stripFieldImpl
  split
  · exact hnone
  · rename_i hrefused
    have hnil : pathSegments path ≠ [] := by
      intro hnil
      simp [refusedAtRoot, hnil] at hrefused
    rw [get_stripFieldRecursive _ hnil, hnone]
    simp

theorem get_stripFieldImpl_of_bareWildcard
    {path : String} (k : String) (fields : List (String × Json))
    (hpath : isBareWildcard path = true) :
    (stripFieldImpl (.obj fields) path).get? k = none := by
  have hsegments : pathSegments path = [wildcard] := eq_of_beq hpath
  have hpasses : refusedAtRoot [wildcard] = false := by
    decide
  unfold stripFieldImpl
  rw [hsegments, hpasses, if_neg (by decide), get_stripFieldRecursive _ (by simp)]
  simp

/-!
## Whole pipelines
-/

theorem get_stripAll_of_none
    (paths : List String) (fields : List (String × Json))
    (hnone : (Json.obj fields).get? k = none) :
    (stripAll paths (.obj fields)).get? k = none := by
  induction paths generalizing fields with
  | nil => exact hnone
  | cons path rest ih =>
      rcases stripFieldImpl_obj path fields with ⟨fields', hfields'⟩
      have hnext := get_stripFieldImpl_of_none path hnone
      rw [stripAll, List.foldl_cons, hfields']
      rw [hfields'] at hnext
      exact ih fields' hnext

theorem get_stripAll_of_protected
    (hk : k ∈ protectedRootMembers) (paths : List String)
    (hpaths : forall path, path ∈ paths -> isBareWildcard path = false)
    (fields : List (String × Json)) (v : Json) (hv : (Json.obj fields).get? k = some v) :
    exists v', (stripAll paths (.obj fields)).get? k = some v' ∧
      ((forall path, path ∈ paths -> (pathSegments path).length ≤ 1) -> v' = v) := by
  induction paths generalizing fields v with
  | nil => exact ⟨v, hv, fun _ => rfl⟩
  | cons path rest ih =>
      rcases stripFieldImpl_obj path fields with ⟨fields', hfields'⟩
      rcases get_stripFieldImpl_of_protected (hpaths path List.mem_cons_self) hk hv with
        ⟨v', hv', hsame'⟩
      rw [stripAll, List.foldl_cons, hfields']
      rw [hfields'] at hv'
      rcases ih (fun q hq => hpaths q (List.mem_cons_of_mem _ hq)) fields' v' hv' with
        ⟨v'', hv'', hsame''⟩
      refine ⟨v'', hv'', ?_⟩
      intro hshort
      rw [hsame'' fun q hq => hshort q (List.mem_cons_of_mem _ hq),
        hsame' (hshort path List.mem_cons_self)]

theorem get_stripAll_of_bareWildcard
    (k : String) {paths : List String}
    (hpaths : exists path, path ∈ paths ∧ isBareWildcard path = true) :
    forall fields : List (String × Json), (stripAll paths (.obj fields)).get? k = none := by
  induction paths with
  | nil =>
      rcases hpaths with ⟨path, hmem, -⟩
      cases hmem
  | cons path rest ih =>
      intro fields
      rcases stripFieldImpl_obj path fields with ⟨fields', hfields'⟩
      rw [stripAll, List.foldl_cons, hfields']
      cases hpath : isBareWildcard path with
      | true =>
          have hgone := get_stripFieldImpl_of_bareWildcard k fields hpath
          rw [hfields'] at hgone
          exact get_stripAll_of_none rest fields' hgone
      | false =>
          rcases hpaths with ⟨path', hmem, hwild⟩
          rcases List.mem_cons.mp hmem with rfl | hmem
          · rw [hpath] at hwild
            cases hwild
          · exact ih ⟨path', hmem, hwild⟩ fields'

/-- Every protected member of the envelope is still there, with its contents where no
path has more than one segment. -/
def KeepsProtected (paths : List String) (envelope out : Json) : Prop :=
  forall k v, k ∈ protectedRootMembers -> envelope.get? k = some v ->
    exists v', out.get? k = some v' ∧
      ((forall path, path ∈ paths -> (pathSegments path).length ≤ 1) -> v' = v)

/-- A pipeline of strips keeps the protected members exactly when no path is the bare
wildcard, or there is none to keep. -/
theorem strip_pipeline_keeps_protected_iff
    (fields : List (String × Json)) (paths : List String) :
    (exists out, applyAll (stripStages paths) (.obj fields) = .ok out ∧
      KeepsProtected paths (.obj fields) out) <->
      (forall path, path ∈ paths -> isBareWildcard path = false) ∨
        forall k, k ∈ protectedRootMembers -> (Json.obj fields).get? k = none := by
  simp only [applyAll_stripStages, Except.ok.injEq, exists_eq_left']
  constructor
  · intro hkeeps
    by_contra hnot
    rw [not_or] at hnot
    rcases hnot with ⟨hwild, hpresent⟩
    have hwild' : exists path, path ∈ paths ∧ isBareWildcard path = true := by
      simpa using hwild
    have hpresent' : exists k v, k ∈ protectedRootMembers ∧
        (Json.obj fields).get? k = some v := by
      by_contra hnone
      refine hpresent fun k hk => Option.eq_none_iff_forall_ne_some.mpr fun v hv => ?_
      exact hnone ⟨k, v, hk, hv⟩
    rcases hpresent' with ⟨k, v, hk, hv⟩
    rcases hkeeps k v hk hv with ⟨v', hv', -⟩
    rw [get_stripAll_of_bareWildcard k hwild'] at hv'
    cases hv'
  · rintro (hpaths | hnone)
    · intro k v hk hv
      exact get_stripAll_of_protected hk paths hpaths fields v hv
    · intro k v hk hv
      rw [hnone k hk] at hv
      cases hv

theorem wildcard_strips_dimension :
    applyAll (stripStages ["/*"]) (.obj [("dimension", .str "d"), ("note", .str "n")]) =
        .ok (.obj []) ∧
      Not (KeepsProtected ["/*"] (.obj [("dimension", .str "d"), ("note", .str "n")])
        (.obj [])) := by
  refine ⟨by rfl, fun hkeeps => ?_⟩
  rcases hkeeps "dimension" (.str "d") (by decide) (by rfl) with ⟨v', hv', -⟩
  cases hv'

end Transform
end CirisPersist.Federation
