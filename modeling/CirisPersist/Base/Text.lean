import Mathlib.Data.List.Basic
import Mathlib.Data.String.Basic

/-!
# Text primitives

The federation layer reads protocol strings, scope tokens and dimensions by
prefix, infix and decimal tail.  The functions here follow the documented
behaviour of the `str` methods the source calls.  They all go through the
character list, so that every one of them evaluates on a literal.
-/

namespace CirisPersist.Text

/-!
## Prefixes

`strip_prefix` and `starts_with` of the source.
-/

def stripPrefix (pre s : String) : Option String :=
  (pre.toList.isPrefixOf? s.toList).map String.ofList

def startsWith (pre s : String) : Bool :=
  pre.toList.isPrefixOf s.toList

def stripSuffix (suf s : String) : Option String :=
  (suf.toList.reverse.isPrefixOf? s.toList.reverse).map fun rest => String.ofList rest.reverse

theorem stripPrefix_append_self
    (pre s : String) :
    stripPrefix pre (pre ++ s) = some s := by
  simp [stripPrefix, List.isPrefixOf?_eq_some_iff_append_eq.mpr rfl]

variable {s : String}

theorem startsWith_of_stripPrefix
    {pre rest : String} (h : stripPrefix pre s = some rest) :
    startsWith pre s = true := by
  rcases Option.map_eq_some_iff.mp h with ⟨tail, htail, -⟩
  rw [startsWith, List.isPrefixOf_iff_prefix]
  exact ⟨tail, List.append_eq_of_isPrefixOf?_eq_some htail⟩

/-!
## Splitting at the first separator

`split_once` of the source, for a character and for a string separator.
-/

def splitOnceList (sep : List Char) : List Char -> Option (List Char × List Char)
  | [] =>
      (sep.isPrefixOf? []).map fun rest => ([], rest)
  | c :: cs =>
      match sep.isPrefixOf? (c :: cs) with
      | some rest => some ([], rest)
      | none => (splitOnceList sep cs).map fun (a, b) => (c :: a, b)

def splitOnce (sep s : String) : Option (String × String) :=
  (splitOnceList sep.toList s.toList).map
    fun (a, b) => (String.ofList a, String.ofList b)

variable {c : Char} {cs : List Char}

theorem isPrefixOf?_cons_eq_none
    {s : List Char} (h : c ∉ s) :
    (c :: cs).isPrefixOf? s = none := by
  cases s with
  | nil => rfl
  | cons d rest =>
      have hne : (c == d) = false := by
        rw [beq_eq_false_iff_ne]
        intro heq
        exact h (heq ▸ List.mem_cons_self)
      simp [List.isPrefixOf?, hne]

theorem splitOnceList_append
    (b a : List Char) (h : c ∉ a) :
    splitOnceList (c :: cs) (a ++ ((c :: cs) ++ b)) = some (a, b) := by
  induction a with
  | nil =>
      have hlead : (c :: cs).isPrefixOf? (c :: (cs ++ b)) = some b :=
        List.isPrefixOf?_eq_some_iff_append_eq.mpr rfl
      rw [List.nil_append, List.cons_append, splitOnceList, hlead]
  | cons d a ih =>
      rw [List.mem_cons, not_or] at h
      have hhead : (c :: cs).isPrefixOf? (d :: (a ++ ((c :: cs) ++ b))) = none := by
        simp [List.isPrefixOf?, h.1]
      rw [List.cons_append, splitOnceList, hhead, ih h.2]
      rfl

theorem splitOnceList_eq_none
    (s : List Char) (h : c ∉ s) :
    splitOnceList (c :: cs) s = none := by
  induction s with
  | nil => rfl
  | cons d rest ih =>
      rw [splitOnceList, isPrefixOf?_cons_eq_none h, ih fun hmem => h (List.mem_cons_of_mem d hmem)]
      rfl

theorem splitOnce_append
    {sep a : String} (b : String) (hsep : sep.toList = c :: cs) (h : c ∉ a.toList) :
    splitOnce sep (a ++ (sep ++ b)) = some (a, b) := by
  rw [splitOnce, String.toList_append, String.toList_append, hsep, splitOnceList_append _ _ h]
  simp only [Option.map_some, String.ofList_toList]

theorem splitOnce_eq_none
    {sep : String} (hsep : sep.toList = c :: cs) (h : c ∉ s.toList) :
    splitOnce sep s = none := by
  rw [splitOnce, hsep, splitOnceList_eq_none _ h, Option.map_none]

/-- `split(sep)`: every piece between separators, empty pieces kept. -/
def splitChars (sep : Char) : List Char -> List (List Char)
  | [] => [[]]
  | c :: cs =>
      if c = sep then
        [] :: splitChars sep cs
      else
        match splitChars sep cs with
        | [] => [[c]]
        | piece :: rest => (c :: piece) :: rest

def split (sep : Char) (s : String) : List String :=
  (splitChars sep s.toList).map String.ofList

def trimStartMatches (c : Char) (s : String) : String :=
  String.ofList (s.toList.dropWhile fun d => d = c)

def trimMatches (p : Char -> Bool) (s : String) : String :=
  String.ofList ((s.toList.dropWhile p).reverse.dropWhile p).reverse

/-!
## Decimal integers

`str::parse` for an unsigned type accepts one leading `+`, then one or more
decimal digits, and fails when the value does not fit the type.
-/

def digitValue (c : Char) : Option Nat :=
  if '0' ≤ c && c ≤ '9' then some (c.toNat - '0'.toNat) else none

def decimalValue : Nat -> List Char -> Option Nat
  | acc, [] => some acc
  | acc, c :: cs =>
      match digitValue c with
      | some d => decimalValue (10 * acc + d) cs
      | none => none

def parseUnsigned (bound : Nat) (s : String) : Option Nat :=
  let digits := match s.toList with
    | '+' :: rest => rest
    | cs => cs
  if digits.isEmpty then
    none
  else
    (decimalValue 0 digits).bind fun n => if n < bound then some n else none

def parseU32 : String -> Option Nat :=
  parseUnsigned (2 ^ 32)

variable {n : Nat}

theorem isDigit_of_mem_repr
    (h : c ∈ n.repr.toList) :
    c.isDigit = true := by
  rw [Nat.toList_repr] at h
  exact Nat.isDigit_of_mem_toDigits (by decide) (by decide) h

theorem toList_repr_ne_nil
    (n : Nat) :
    n.repr.toList ≠ [] := by
  rw [Nat.toList_repr]
  exact Nat.toDigits_ne_nil

theorem notMem_repr_of_not_isDigit
    (h : c.isDigit = false) (n : Nat) :
    c ∉ n.repr.toList := by
  intro hmem
  rw [isDigit_of_mem_repr hmem] at h
  cases h

theorem digitValue_eq_of_isDigit
    (h : c.isDigit = true) :
    digitValue c = some (c.toNat - '0'.toNat) := by
  have hrange : ('0' ≤ c && c ≤ '9') = true := h
  rw [digitValue, if_pos hrange]

theorem decimalValue_eq_ofDigitChars
    (cs : List Char) :
    forall acc, (forall c, c ∈ cs -> c.isDigit = true) ->
      decimalValue acc cs = some (Nat.ofDigitChars 10 cs acc) := by
  induction cs with
  | nil =>
      intro acc _
      rfl
  | cons c cs ih =>
      intro acc hdigits
      rw [decimalValue, digitValue_eq_of_isDigit (hdigits c List.mem_cons_self),
        Nat.ofDigitChars_cons]
      exact ih _ fun d hd => hdigits d (List.mem_cons_of_mem c hd)

theorem parseUnsigned_repr
    {bound : Nat} (h : n < bound) :
    parseUnsigned bound n.repr = some n := by
  have hvalue : decimalValue 0 n.repr.toList = some n := by
    rw [decimalValue_eq_ofDigitChars _ 0 fun c hc => isDigit_of_mem_repr hc, Nat.toList_repr,
      Nat.ofDigitChars_ten_toDigits]
  have hsign : '+' ∉ n.repr.toList := notMem_repr_of_not_isDigit (by decide) n
  unfold parseUnsigned
  cases hcs : n.repr.toList with
  | nil => exact absurd hcs (toList_repr_ne_nil n)
  | cons c cs =>
      rw [hcs] at hvalue hsign
      have hplus : c ≠ '+' := fun heq => hsign (heq ▸ List.mem_cons_self)
      simp [hplus, hvalue, h]

theorem parseUnsigned_lt
    {bound : Nat} (h : parseUnsigned bound s = some n) :
    n < bound := by
  simp only [parseUnsigned, Option.ite_none_left_eq_some, Option.bind_eq_some_iff,
    Option.ite_none_right_eq_some, Option.some.injEq] at h
  rcases h with ⟨-, value, -, hlt, rfl⟩
  exact hlt

/-!
## Message formatting

The `{:?}` form of a string: double quotes, with the usual escapes.
-/

def escapeChar (c : Char) : List Char :=
  if c = '"' then ['\\', '"']
  else if c = '\\' then ['\\', '\\']
  else if c = '\n' then ['\\', 'n']
  else if c = '\r' then ['\\', 'r']
  else if c = '\t' then ['\\', 't']
  else [c]

def debugStr (s : String) : String :=
  "\"" ++ String.ofList (s.toList.flatMap escapeChar) ++ "\""

def debugChar (c : Char) : String :=
  "'" ++ String.ofList (if c = '\'' then ['\\', c] else if c = '"' then [c] else escapeChar c) ++
    "'"

end CirisPersist.Text
