import CirisPersist.Base.Json
import CirisPersist.Base.Text
import Mathlib.Data.List.TakeWhile
import Mathlib.Data.Nat.Digits.Lemmas

/-!
# JSON text and derived readers

The manifests of a chunk DAG are written by hand, text piece by text piece, and read
back through `serde_json` into derived wire types.  Escaping a string and parsing a
text are `serde_json`'s; the model takes both as parameters, and a result that needs
them to agree says so through `LawfulSerdeJson`.

A derived reader is the repository's own choice of members, so the model spells out
what it does: a struct is read from an object by name or from an array by position,
a repeated member is refused, an unknown one is ignored or refused.
-/

namespace CirisPersist

/-- What the model takes from `serde_json`. -/
class SerdeJson where
  /-- `to_string` of a string. -/
  quote : String -> String
  /-- The value the bytes spell, its members in their order and with repeats. -/
  fromSlice : ByteArray -> Option Json
  /-- The error of reading the bytes into the named type. -/
  errorText : String -> ByteArray -> String

/-!
## Canonical text

The text of a value with nothing between the tokens, members in the order given.
-/

namespace Json

def commas : List String -> String
  | [] => ""
  | [piece] => piece
  | piece :: next :: rest => piece ++ "," ++ commas (next :: rest)

mutual

def text [SerdeJson] : Json -> String
  | null => "null"
  | bool b => if b then "true" else "false"
  | num (.int n) => n.repr
  | num (.float q) => q.num.repr ++ "/" ++ q.den.repr
  | str s => SerdeJson.quote s
  | arr items => "[" ++ commas (itemTexts items) ++ "]"
  | obj fields => "\x7b" ++ commas (fieldTexts fields) ++ "\x7d"

def itemTexts [SerdeJson] : List Json -> List String
  | [] => []
  | v :: rest => v.text :: itemTexts rest

def fieldTexts [SerdeJson] : List (String × Json) -> List String
  | [] => []
  | (k, v) :: rest => (SerdeJson.quote k ++ ":" ++ v.text) :: fieldTexts rest

end

theorem itemTexts_eq_map [SerdeJson]
    (items : List Json) :
    itemTexts items = items.map text := by
  induction items with
  | nil => rfl
  | cons v rest ih => rw [itemTexts, ih, List.map_cons]

def nat (n : Nat) : Json :=
  num (.int n)

@[simp]
theorem text_nat [SerdeJson]
    (n : Nat) :
    (nat n).text = n.repr := by
  simp [nat, text, Int.repr]

mutual

/-- Strings, unsigned numbers, and arrays and objects of them, nested to a depth. -/
def plain : Nat -> Json -> Bool
  | _, str _ => true
  | _, num (.int n) => 0 ≤ n && n < 2 ^ 64
  | d + 1, arr items => plainItems d items
  | d + 1, obj fields => plainFields d fields
  | _, _ => false

def plainItems : Nat -> List Json -> Bool
  | _, [] => true
  | d, v :: rest => plain d v && plainItems d rest

def plainFields : Nat -> List (String × Json) -> Bool
  | _, [] => true
  | d, (_, v) :: rest => plain d v && plainFields d rest

end

@[simp]
theorem plain_nat
    (d n : Nat) :
    plain d (nat n) = decide (n < 2 ^ 64) := by
  unfold nat
  cases d <;> simp [plain, Nat.cast_lt_ofNat]

theorem plainItems_iff
    (d : Nat) (items : List Json) :
    plainItems d items = true <-> forall v, v ∈ items -> plain d v = true := by
  induction items with
  | nil => simp [plainItems]
  | cons v rest ih => simp [plainItems, ih]

theorem plainFields_append
    (d : Nat) (fields fields' : List (String × Json)) :
    plainFields d (fields ++ fields') = (plainFields d fields && plainFields d fields') := by
  induction fields with
  | nil => simp [plainFields]
  | cons f rest ih => simp [plainFields, ih, Bool.and_assoc]

end Json

/-- Letters, digits and underscores are quoted as they are, and what is written as
plain canonical text reads back, up to the depth the reader allows. -/
class LawfulSerdeJson [SerdeJson] : Prop where
  quote_plain : forall s : String, (forall c, c ∈ s.toList -> (c.isAlphanum || c == '_') = true) ->
    SerdeJson.quote s = "\"" ++ s ++ "\""
  fromSlice_text : forall v : Json, v.plain 127 = true ->
    SerdeJson.fromSlice v.text.toUTF8 = some v

/-!
## Derived readers
-/

namespace Serde

def single (fields : List (String × Json)) (name : String) : Option (Option Json) :=
  match fields.filter fun f => f.1 = name with
  | [] => some none
  | [f] => some (some f.2)
  | _ => none

/-- The members of a struct, by name from an object or by position from an array. -/
def members (names : List String) (denyUnknown : Bool) : Json -> Option (List (Option Json))
  | .obj fields =>
      if denyUnknown && fields.any fun f => !names.contains f.1 then
        none
      else
        names.mapM (single fields)
  | .arr items =>
      if items.length ≤ names.length then
        some (items.map some ++ List.replicate (names.length - items.length) none)
      else
        none
  | _ => none

def readU32 : Json -> Option UInt32
  | .num (.int n) => if 0 ≤ n && n < 2 ^ 32 then some (UInt32.ofNat n.toNat) else none
  | _ => none

def readU64 : Json -> Option UInt64
  | .num (.int n) => if 0 ≤ n && n < 2 ^ 64 then some (UInt64.ofNat n.toNat) else none
  | _ => none

def readVec {α : Type} (read : Json -> Option α) : Json -> Option (List α)
  | .arr items => items.mapM read
  | _ => none

def optional {α : Type} (read : Json -> Option α) : Option Json -> Option (Option α)
  | none => some none
  | some .null => some none
  | some v => (read v).map some

def required {α : Type} (read : Json -> Option α) (member : Option Json) : Option α :=
  member.bind read

@[simp]
theorem readU32_nat
    (n : UInt32) :
    readU32 (Json.nat n.toNat) = some n := by
  have hlt := n.toNat_lt
  simp [readU32, Json.nat, hlt]

@[simp]
theorem readU64_nat
    (n : UInt64) :
    readU64 (Json.nat n.toNat) = some n := by
  have hlt := n.toNat_lt
  simp [readU64, Json.nat, hlt]

variable {α : Type}

@[simp]
theorem required_some
    (read : Json -> Option α) (v : Json) :
    required read (some v) = read v := by
  rw [required, Option.bind_some]

@[simp]
theorem optional_none
    (read : Json -> Option α) :
    optional read none = some none := by
  rw [optional]

@[simp]
theorem optional_u64
    (n : UInt64) :
    optional readU64 (some (Json.nat n.toNat)) = some (some n) := by
  have hread := readU64_nat n
  simp only [Json.nat] at hread ⊢
  rw [optional, hread]
  · rfl
  · nofun

@[simp]
theorem optional_str
    (s : String) :
    optional Json.asStr (some (.str s)) = some (some s) :=
  rfl

theorem head_of_mapM
    {β : Type} {f : α -> Option β} {a : α} {rest : List α} {y : β} {ys : List β}
    (h : (a :: rest).mapM f = some (y :: ys)) :
    f a = some y := by
  rw [List.mapM_cons] at h
  rcases Option.bind_eq_some_iff.mp h with ⟨z, hfa, h⟩
  rcases Option.bind_eq_some_iff.mp h with ⟨zs, -, h⟩
  cases h
  exact hfa

theorem members_head_eq
    {name : String} {names names' : List String} {deny deny' : Bool} {j : Json}
    {x x' : Option Json} {xs xs' : List (Option Json)}
    (h : members (name :: names) deny j = some (x :: xs))
    (h' : members (name :: names') deny' j = some (x' :: xs')) :
    x = x' := by
  cases j with
  | obj fields =>
      rw [members] at h h'
      split at h
      · cases h
      · split at h'
        · cases h'
        · have hx := (head_of_mapM h).symm.trans (head_of_mapM h')
          exact Option.some.inj hx
  | arr items =>
      rw [members] at h h'
      split at h
      · split at h'
        · cases items with
          | nil =>
              simp only [List.map_nil, List.nil_append, List.length_nil, List.length_cons,
                Nat.sub_zero, List.replicate_succ, Option.some.injEq, List.cons.injEq] at h h'
              rw [← h.1, ← h'.1]
          | cons item rest =>
              simp only [List.map_cons, List.cons_append, Option.some.injEq, List.cons.injEq] at h h'
              rw [← h.1, ← h'.1]
        · cases h'
      · cases h
  | _ => cases h

theorem readVec_map
    {β : Type} {read : Json -> Option α} {write : β -> Json} {f : β -> α} (values : List β)
    (h : forall b, b ∈ values -> read (write b) = some (f b)) :
    readVec read (.arr (values.map write)) = some (values.map f) := by
  simp only [readVec]
  induction values with
  | nil => rfl
  | cons b rest ih =>
      have hrest := ih fun x hx => h x (List.mem_cons_of_mem _ hx)
      rw [List.map_cons, List.mapM_cons, h b List.mem_cons_self, hrest]
      rfl

end Serde

/-!
## A reference instance

Concrete runs escape the quote and the backslash and read the canonical text back.
The reader spends one unit of fuel for each value and each element, and the text is
longer than that.
-/

namespace Reference

def escape (c : Char) : List Char :=
  if c = '"' ∨ c = '\\' then ['\\', c] else [c]

def quote (s : String) : String :=
  "\"" ++ String.ofList (s.toList.flatMap escape) ++ "\""

def readChars : List Char -> Option (List Char × List Char)
  | [] => none
  | [c] => if c = '"' then some ([], []) else none
  | c :: d :: rest =>
      if c = '"' then
        some ([], d :: rest)
      else if c = '\\' then
        (readChars rest).map fun p => (d :: p.1, p.2)
      else
        (readChars (d :: rest)).map fun p => (c :: p.1, p.2)

def readNumber (cs : List Char) : Option (Json × List Char) :=
  if (cs.takeWhile Char.isDigit).isEmpty then
    none
  else
    some (Json.nat (Nat.ofDigitChars 10 (cs.takeWhile Char.isDigit) 0), cs.dropWhile Char.isDigit)

mutual

def readValue : Nat -> List Char -> Option (Json × List Char)
  | 0, _ => none
  | _ + 1, [] => none
  | fuel + 1, c :: rest =>
      if c = '"' then
        (readChars rest).map fun p => (.str (String.ofList p.1), p.2)
      else if c = '[' then
        if rest.head? = some ']' then
          some (.arr [], rest.tail)
        else
          (readItems fuel rest).map fun p => (.arr p.1, p.2)
      else if c = '\x7b' then
        if rest.head? = some '\x7d' then
          some (.obj [], rest.tail)
        else
          (readFields fuel rest).map fun p => (.obj p.1, p.2)
      else
        readNumber (c :: rest)

def readItems : Nat -> List Char -> Option (List Json × List Char)
  | 0, _ => none
  | fuel + 1, cs =>
      (readValue fuel cs).bind fun p =>
        if p.2.head? = some ',' then
          (readItems fuel p.2.tail).map fun q => (p.1 :: q.1, q.2)
        else if p.2.head? = some ']' then
          some ([p.1], p.2.tail)
        else
          none

def readFields : Nat -> List Char -> Option (List (String × Json) × List Char)
  | 0, _ => none
  | fuel + 1, cs =>
      (readChars cs.tail).bind fun k =>
        (readValue fuel k.2.tail).bind fun p =>
          if p.2.head? = some ',' then
            (readFields fuel p.2.tail).map fun q => ((String.ofList k.1, p.1) :: q.1, q.2)
          else if p.2.head? = some '\x7d' then
            some ([(String.ofList k.1, p.1)], p.2.tail)
          else
            none

end

scoped instance serdeJson : SerdeJson where
  quote := quote
  fromSlice := fun bytes => (String.fromUTF8? bytes).bind fun s =>
    (readValue s.toList.length s.toList).bind fun p =>
      if p.2 = [] then some p.1 else none
  errorText := fun target _ => target

theorem readChars_escape
    (cs rest : List Char) :
    readChars (cs.flatMap escape ++ '"' :: rest) = some (cs, rest) := by
  induction cs with
  | nil =>
      cases rest with
      | nil => rfl
      | cons d rest => rfl
  | cons c cs ih =>
      rw [List.flatMap_cons, escape]
      by_cases hescaped : c = '"' ∨ c = '\\'
      · rw [if_pos hescaped, List.append_assoc, List.cons_append, List.singleton_append, readChars,
          if_neg (by decide), if_pos rfl, ih]
        rfl
      · rw [if_neg hescaped, List.append_assoc, List.singleton_append]
        rw [not_or] at hescaped
        -- the text goes on at least to the closing quote
        cases htail : cs.flatMap escape ++ '"' :: rest with
        | nil => simp at htail
        | cons d tail =>
            rw [readChars, if_neg hescaped.1, if_neg hescaped.2, ← htail, ih]
            rfl

theorem toList_quote
    (s : String) :
    (quote s).toList = '"' :: (s.toList.flatMap escape ++ ['"']) := by
  simp [quote]

theorem readNumber_nat
    (n : Nat) {rest : List Char} (hrest : forall c, rest.head? = some c -> c.isDigit = false) :
    readNumber (n.repr.toList ++ rest) = some (Json.nat n, rest) := by
  have hdigits : forall c, c ∈ n.repr.toList -> c.isDigit = true :=
    fun c hc => Text.isDigit_of_mem_repr hc
  have hrestTake : rest.takeWhile Char.isDigit = [] := by
    cases rest with
    | nil => rfl
    | cons c rest => simp [hrest c rfl]
  have hrestDrop : rest.dropWhile Char.isDigit = rest := by
    cases rest with
    | nil => rfl
    | cons c rest => simp [hrest c rfl]
  have htake : (n.repr.toList ++ rest).takeWhile Char.isDigit = n.repr.toList := by
    rw [List.takeWhile_append_of_pos hdigits, hrestTake, List.append_nil]
  have hdrop : (n.repr.toList ++ rest).dropWhile Char.isDigit = rest := by
    rw [List.dropWhile_append_of_pos hdigits, hrestDrop]
  have hne : n.repr.toList.isEmpty = false :=
    List.isEmpty_eq_false_iff.mpr (Text.toList_repr_ne_nil n)
  rw [readNumber, htake, hdrop, hne, if_neg Bool.false_ne_true, Nat.toList_repr,
    Nat.ofDigitChars_ten_toDigits]

theorem exists_digit_head
    (n : Nat) :
    exists c cs, n.repr.toList = c :: cs ∧ c.isDigit = true := by
  rcases List.exists_cons_of_ne_nil (Text.toList_repr_ne_nil n) with ⟨c, cs, hcs⟩
  refine ⟨c, cs, hcs, ?_⟩
  have hmem : c ∈ n.repr.toList := by
    rw [hcs]
    exact List.mem_cons_self
  exact Text.isDigit_of_mem_repr hmem

variable {d : Nat}

theorem plain_cases
    {v : Json} (h : v.plain d = true) :
    (exists s, v = .str s) ∨ (exists n, v = .nat n) ∨
      (exists e items, d = e + 1 ∧ v = .arr items ∧ Json.plainItems e items = true) ∨
      exists e fields, d = e + 1 ∧ v = .obj fields ∧ Json.plainFields e fields = true := by
  cases v with
  | null => cases d <;> simp [Json.plain] at h
  | bool b => cases d <;> simp [Json.plain] at h
  | str s => exact Or.inl ⟨s, rfl⟩
  | num n =>
      cases n with
      | float q => cases d <;> simp [Json.plain] at h
      | int n =>
          have hnonneg : 0 ≤ n := by
            cases d <;> simp [Json.plain] at h <;> exact h.1
          exact Or.inr (Or.inl ⟨n.toNat, by rw [Json.nat, Int.toNat_of_nonneg hnonneg]⟩)
  | arr items =>
      cases d with
      | zero => simp [Json.plain] at h
      | succ e => exact Or.inr (Or.inr (Or.inl ⟨e, items, rfl, rfl, by simpa [Json.plain] using h⟩))
  | obj fields =>
      cases d with
      | zero => simp [Json.plain] at h
      | succ e => exact Or.inr (Or.inr (Or.inr ⟨e, fields, rfl, rfl, by simpa [Json.plain] using h⟩))

theorem head_text
    {v : Json} (h : v.plain d = true) :
    exists c cs, v.text.toList = c :: cs ∧ c ≠ ']' := by
  rcases plain_cases h with ⟨s, rfl⟩ | ⟨n, rfl⟩ | ⟨e, items, -, rfl, -⟩ | ⟨e, fields, -, rfl, -⟩
  · exact ⟨'"', _, toList_quote s, by decide⟩
  · rcases exists_digit_head n with ⟨c, cs, hcs, hdigit⟩
    refine ⟨c, cs, by rw [Json.text_nat, hcs], ?_⟩
    rintro rfl
    exact absurd hdigit (by decide)
  · exact ⟨'[', _, by simp only [Json.text, String.toList_append]; rfl, by decide⟩
  · exact ⟨'\x7b', _, by simp only [Json.text, String.toList_append]; rfl, by decide⟩

def NumberEnds (rest : List Char) : Prop :=
  forall c, rest.head? = some c -> c.isDigit = false

def ReadsBack (d : Nat) (v : Json) : Prop :=
  v.plain d = true -> forall fuel rest, v.text.toList.length ≤ fuel -> NumberEnds rest ->
    readValue fuel (v.text.toList ++ rest) = some (v, rest)

theorem readItems_texts
    (v : Json) (items : List Json) (hitems : forall x, x ∈ v :: items -> ReadsBack d x)
    (hplain : Json.plainItems d (v :: items) = true) :
    forall fuel rest, (Json.commas (Json.itemTexts (v :: items))).toList.length < fuel ->
      readItems fuel ((Json.commas (Json.itemTexts (v :: items))).toList ++ ']' :: rest) =
        some (v :: items, rest) := by
  induction items generalizing v with
  | nil =>
      intro fuel rest hfuel
      have hv : v.plain d = true := by
        simpa [Json.plainItems] using hplain
      simp only [Json.itemTexts, Json.commas] at hfuel ⊢
      cases fuel with
      | zero => omega
      | succ fuel =>
          rw [readItems, hitems v List.mem_cons_self hv fuel _ (by omega)
            (by rintro c hc; cases hc; decide)]
          simp
  | cons w items ih =>
      intro fuel rest hfuel
      have hplain' : v.plain d = true ∧ Json.plainItems d (w :: items) = true := by
        simpa only [Json.plainItems, Bool.and_eq_true] using hplain
      simp only [Json.itemTexts, Json.commas, String.toList_append, List.length_append,
        List.append_assoc] at hfuel ih ⊢
      cases fuel with
      | zero => omega
      | succ fuel =>
          have hcomma : ",".toList = [','] := rfl
          rw [hcomma, List.length_singleton] at hfuel
          rw [readItems, hcomma, hitems v List.mem_cons_self hplain'.1 fuel _ (by omega)
            (by rintro c hc; cases hc; decide)]
          have hrest := ih w (fun x hx => hitems x (List.mem_cons_of_mem _ hx)) hplain'.2 fuel rest
            (by omega)
          simp only [Option.bind_some, List.singleton_append, List.head?_cons, if_true,
            List.tail_cons, hrest, Option.map_some]

theorem readFields_texts
    (f : String × Json) (fields : List (String × Json))
    (hfields : forall x, x ∈ f :: fields -> ReadsBack d x.2)
    (hplain : Json.plainFields d (f :: fields) = true) :
    forall fuel rest, (Json.commas (Json.fieldTexts (f :: fields))).toList.length < fuel ->
      readFields fuel ((Json.commas (Json.fieldTexts (f :: fields))).toList ++ '\x7d' :: rest) =
        some (f :: fields, rest) := by
  have hcolon : ":".toList = [':'] := rfl
  have hquote : forall k : String, (SerdeJson.quote k).toList =
      '"' :: (k.toList.flatMap escape ++ ['"']) := toList_quote
  induction fields generalizing f with
  | nil =>
      intro fuel rest hfuel
      have hv : f.2.plain d = true := by
        simpa [Json.plainFields] using hplain
      simp only [Json.fieldTexts, Json.commas, String.toList_append, hcolon, hquote,
        List.append_assoc, List.cons_append, List.nil_append] at hfuel ⊢
      simp only [List.length_cons, List.length_append] at hfuel
      cases fuel with
      | zero => omega
      | succ fuel =>
          rw [readFields, List.tail_cons, readChars_escape, Option.bind_some, List.tail_cons,
            hfields f List.mem_cons_self hv fuel _ (by omega) (by rintro c hc; cases hc; decide)]
          simp
  | cons g fields ih =>
      intro fuel rest hfuel
      have hplain' : f.2.plain d = true ∧ Json.plainFields d (g :: fields) = true := by
        simpa only [Json.plainFields, Bool.and_eq_true] using hplain
      have hcomma : ",".toList = [','] := rfl
      have hrest := ih g (fun x hx => hfields x (List.mem_cons_of_mem _ hx)) hplain'.2
      simp only [Json.fieldTexts, Json.commas, String.toList_append, hcolon, hquote, hcomma,
        List.append_assoc, List.cons_append, List.nil_append] at hfuel hrest ⊢
      simp only [List.length_cons, List.length_append] at hfuel
      cases fuel with
      | zero => omega
      | succ fuel =>
          rw [readFields, List.tail_cons, readChars_escape, Option.bind_some, List.tail_cons,
            hfields f List.mem_cons_self hplain'.1 fuel _ (by omega)
              (by rintro c hc; cases hc; decide)]
          simp only [Option.bind_some, List.head?_cons, if_true, List.tail_cons,
            hrest fuel rest (by omega), Option.map_some, String.ofList_toList]

theorem readsBack_str
    (d : Nat) (s : String) :
    ReadsBack d (.str s) := by
  intro _ fuel rest hfuel _
  have hquote : (Json.str s).text.toList = '"' :: (s.toList.flatMap escape ++ ['"']) :=
    toList_quote s
  rw [hquote] at hfuel ⊢
  cases fuel with
  | zero => simp at hfuel
  | succ fuel =>
      rw [List.cons_append, List.append_assoc, List.singleton_append, readValue, if_pos rfl,
        readChars_escape, Option.map_some, String.ofList_toList]

theorem readsBack_nat
    (d n : Nat) :
    ReadsBack d (Json.nat n) := by
  intro _ fuel rest hfuel hrest
  rw [Json.text_nat] at hfuel ⊢
  have hnumber := readNumber_nat n hrest
  rcases exists_digit_head n with ⟨c, cs, hcs, hdigit⟩
  rw [hcs] at hfuel hnumber ⊢
  cases fuel with
  | zero => simp at hfuel
  | succ fuel =>
      have hother : forall c', c'.isDigit = false -> c ≠ c' := by
        rintro c' hc' rfl
        rw [hdigit] at hc'
        cases hc'
      rw [List.cons_append, readValue, if_neg (hother _ (by decide)),
        if_neg (hother _ (by decide)), if_neg (hother _ (by decide)), ← List.cons_append,
        hnumber]

theorem readsBack_arr
    {items : List Json} (hread : forall x, x ∈ items -> forall d, ReadsBack d x) (d : Nat) :
    ReadsBack d (.arr items) := by
  intro h fuel rest hfuel _
  have hopen : "[".toList = ['['] := rfl
  have hclose : "]".toList = [']'] := rfl
  cases d with
  | zero => simp [Json.plain] at h
  | succ d =>
      have hplain : Json.plainItems d items = true := by
        simpa [Json.plain] using h
      simp only [Json.text, String.toList_append, hopen, hclose, List.append_assoc,
        List.cons_append, List.nil_append] at hfuel ⊢
      simp only [List.length_cons, List.length_append] at hfuel
      cases fuel with
      | zero => omega
      | succ fuel =>
          rw [readValue, if_neg (by decide), if_pos rfl]
          cases items with
          | nil => rfl
          | cons v items =>
              have hv : v.plain d = true := (Json.plainItems_iff d _).mp hplain v List.mem_cons_self
              have hitems := readItems_texts v items (fun x hx => hread x hx d) hplain fuel rest
                (by omega)
              have hhead : ((Json.commas (Json.itemTexts (v :: items))).toList ++
                  ']' :: rest).head? ≠ some ']' := by
                rcases head_text hv with ⟨c, cs, hcs, hne⟩
                cases items with
                | nil => simp [Json.itemTexts, Json.commas, hcs, hne]
                | cons w items => simp [Json.itemTexts, Json.commas, hcs, hne]
              rw [if_neg hhead, hitems]
              rfl

theorem readsBack_obj
    {fields : List (String × Json)} (hread : forall f, f ∈ fields -> forall d, ReadsBack d f.2)
    (d : Nat) :
    ReadsBack d (.obj fields) := by
  intro h fuel rest hfuel _
  have hopen : "\x7b".toList = ['\x7b'] := rfl
  have hclose : "\x7d".toList = ['\x7d'] := rfl
  cases d with
  | zero => simp [Json.plain] at h
  | succ d =>
      have hplain : Json.plainFields d fields = true := by
        simpa [Json.plain] using h
      simp only [Json.text, String.toList_append, hopen, hclose, List.append_assoc,
        List.cons_append, List.nil_append] at hfuel ⊢
      simp only [List.length_cons, List.length_append] at hfuel
      cases fuel with
      | zero => omega
      | succ fuel =>
          rw [readValue, if_neg (by decide), if_neg (by decide), if_pos rfl]
          cases fields with
          | nil => rfl
          | cons f fields =>
              have hfields := readFields_texts f fields (fun x hx => hread x hx d) hplain fuel rest
                (by omega)
              have hhead : ((Json.commas (Json.fieldTexts (f :: fields))).toList ++
                  '\x7d' :: rest).head? ≠ some '\x7d' := by
                have hquote := toList_quote f.1
                cases fields with
                | nil => simp [Json.fieldTexts, Json.commas, SerdeJson.quote, hquote]
                | cons g fields => simp [Json.fieldTexts, Json.commas, SerdeJson.quote, hquote]
              rw [if_neg hhead, hfields]
              rfl

theorem readValue_text
    (v : Json) :
    forall d, ReadsBack d v := by
  induction v using Json.induct with
  | hscalar v harr hobj =>
      intro d h
      rcases plain_cases h with ⟨s, rfl⟩ | ⟨n, rfl⟩ | ⟨e, items, -, rfl, -⟩ | ⟨e, fields, -, rfl, -⟩
      · exact readsBack_str d s h
      · exact readsBack_nat d n h
      · exact absurd rfl (harr items)
      · exact absurd rfl (hobj fields)
  | harr items ih => exact readsBack_arr ih
  | hobj fields ih => exact readsBack_obj ih

instance lawfulSerdeJson : LawfulSerdeJson where
  quote_plain := by
    intro s hs
    have hplain : s.toList.flatMap escape = s.toList := by
      have hescape : forall c, c ∈ s.toList -> escape c = [c] := by
        intro c hc
        have hc' := hs c hc
        refine if_neg ?_
        rintro (rfl | rfl)
        · exact absurd hc' (by decide)
        · exact absurd hc' (by decide)
      rw [List.flatMap_congr hescape, List.flatMap_singleton']
    show quote s = _
    rw [quote, hplain, String.ofList_toList]
  fromSlice_text := by
    intro v hv
    have hread := readValue_text v 127 hv _ [] (Nat.le_refl _) nofun
    rw [List.append_nil] at hread
    have hutf8 : String.fromUTF8? v.text.toUTF8 = some v.text :=
      dif_pos v.text.isValidUTF8
    show (String.fromUTF8? v.text.toUTF8).bind _ = _
    rw [hutf8, Option.bind_some, hread]
    rfl

end Reference

end CirisPersist
