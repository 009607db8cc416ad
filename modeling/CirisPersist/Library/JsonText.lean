import CirisPersist.Library.JsonValue

/-!
# JSON text

A reader of the JSON grammar, and the text of a value with nothing between its tokens.
How a writer spells the characters of a string is left open: a spelling serves when the
reader of one character undoes it in front of any text, and then the reader of values
undoes the whole text.

The reader spends one unit of fuel for each level of nesting, each element and each
character of a string, so the length of the text is enough.
-/

namespace CirisPersist.JsonText

abbrev Reader (A : Type) :=
  List Char -> Option (A × List Char)

def isSpace (c : Char) : Bool :=
  c == ' ' || c == '\t' || c == '\n' || c == '\r'

def expect (c : Char) (cs : List Char) : Option (List Char) :=
  match cs.dropWhile isSpace with
  | [] => none
  | d :: rest => if d = c then some rest else none

variable {c : Char}

theorem expect_self
    (hc : isSpace c = false) (rest : List Char) :
    expect c (c :: rest) = some rest := by
  simp [expect, hc]

theorem expect_ne
    {d : Char} (hd : isSpace d = false) (hne : d ≠ c) (rest : List Char) :
    expect c (d :: rest) = none := by
  simp [expect, hd, hne]

/-!
## Characters of a string
-/

def hexValue (c : Char) : Option Nat :=
  if '0' ≤ c ∧ c ≤ '9' then some (c.toNat - '0'.toNat)
  else if 'a' ≤ c ∧ c ≤ 'f' then some (c.toNat - 'a'.toNat + 10)
  else if 'A' ≤ c ∧ c ≤ 'F' then some (c.toNat - 'A'.toNat + 10)
  else none

def readHex4 : Reader Nat
  | a :: b :: c :: d :: rest =>
      (hexValue a).bind fun a => (hexValue b).bind fun b => (hexValue c).bind fun c =>
        (hexValue d).map fun d => (((a * 16 + b) * 16 + c) * 16 + d, rest)
  | _ => none

def readLow (high : Nat) : Reader Char
  | '\\' :: 'u' :: rest =>
      (readHex4 rest).bind fun low =>
        if 0xDC00 ≤ low.1 ∧ low.1 < 0xE000 then
          some (Char.ofNat (0x10000 + (high - 0xD800) * 0x400 + (low.1 - 0xDC00)), low.2)
        else
          none
  | _ => none

def readUnicode (cs : List Char) : Option (Char × List Char) :=
  (readHex4 cs).bind fun unit =>
    if unit.1 < 0xD800 ∨ 0xE000 ≤ unit.1 then
      some (Char.ofNat unit.1, unit.2)
    else if unit.1 < 0xDC00 then
      readLow unit.1 unit.2
    else
      none

def shortEscapes : List (Char × Char) :=
  [('"', '"'), ('\\', '\\'), ('/', '/'), ('b', '\x08'), ('f', '\x0c'), ('n', '\n'), ('r', '\r'),
    ('t', '\t')]

def readEscape : Reader Char
  | [] => none
  | c :: rest =>
      if c = 'u' then readUnicode rest else (shortEscapes.lookup c).map fun d => (d, rest)

/-- One character of a string; the closing quote and a bare control character are none. -/
def readUnit : Reader Char
  | [] => none
  | c :: rest =>
      if c = '\\' then readEscape rest
      else if c = '"' ∨ c.toNat < 0x20 then none
      else some (c, rest)

def readChars : Nat -> Reader (List Char)
  | 0, _ => none
  | fuel + 1, cs =>
      if cs.head? = some '"' then
        some ([], cs.tail)
      else
        (readUnit cs).bind fun c => (readChars fuel c.2).map fun p => (c.1 :: p.1, p.2)

/-!
## Values
-/

/-- Elements with a comma between each two, and the closing character. -/
def readRest {A : Type} (close : Char) (element : Reader A) : Nat -> Reader (List A)
  | 0, _ => none
  | fuel + 1, cs =>
      (element cs).bind fun a =>
        match expect ',' a.2 with
        | some rest => (readRest close element fuel rest).map fun p => (a.1 :: p.1, p.2)
        | none => (expect close a.2).map fun rest => ([a.1], rest)

def readSeries {A : Type} (close : Char) (element : Reader A) (fuel : Nat) : Reader (List A) :=
  fun cs =>
    match expect close cs with
    | some rest => some ([], rest)
    | none => readRest close element fuel cs

def readMember (fuel : Nat) (value : Reader Value) : Reader (String × Value) :=
  fun cs =>
    (expect '"' cs).bind fun rest => (readChars fuel rest).bind fun k =>
      (expect ':' k.2).bind fun rest => (value rest).map fun v =>
        ((String.ofList k.1, v.1), v.2)

def readNumber (cs : List Char) : Option (Value × List Char) :=
  (numberScan cs).bind fun x =>
    if whole : numberScan x.1 = some (x.1, []) then some (Value.num ⟨x.1, whole⟩, x.2) else none

def readScalar (cs : List Char) : Option (Value × List Char) :=
  if cs.take 4 = "null".toList then some (Value.null, cs.drop 4)
  else if cs.take 4 = "true".toList then some (Value.bool true, cs.drop 4)
  else if cs.take 5 = "false".toList then some (Value.bool false, cs.drop 5)
  else readNumber cs

def readValue : Nat -> Reader Value
  | 0, _ => none
  | fuel + 1, cs =>
      match expect '"' cs, expect '[' cs, expect '\x7b' cs with
      | some rest, _, _ =>
          (readChars fuel rest).map fun s => (.str (String.ofList s.1), s.2)
      | none, some rest, _ =>
          (readSeries ']' (readValue fuel) fuel rest).map fun p => (.arr p.1, p.2)
      | none, none, some rest =>
          (readSeries '\x7d' (readMember fuel (readValue fuel)) fuel rest).map fun p =>
            (.obj p.1, p.2)
      | none, none, none => readScalar (cs.dropWhile isSpace)

def parse (cs : List Char) : Option Value :=
  (readValue (cs.length + 1) cs).bind fun p =>
    if p.2.dropWhile isSpace = [] then some p.1 else none

/-!
## The text of a value
-/

def hex4 (n : Nat) : List Char :=
  [Nat.digitChar (n / 4096), Nat.digitChar (n / 256 % 16), Nat.digitChar (n / 16 % 16),
    Nat.digitChar (n % 16)]

def commas (pieces : List (List Char)) : List Char :=
  [','].intercalate pieces

def bracketed (items : List (List Char)) : List Char :=
  '[' :: (commas items ++ [']'])

section Text

variable (spell : Char -> List Char)

def quote (s : String) : List Char :=
  '"' :: (s.toList.flatMap spell ++ ['"'])

def braced (members : List (String × List Char)) : List Char :=
  '\x7b' :: (commas (members.map fun m => quote spell m.1 ++ ':' :: m.2) ++ ['\x7d'])

def text : Value -> List Char :=
  Value.fold {
    null := "null".toList
    bool := fun b => (if b then "true" else "false").toList
    num := NumberToken.text
    str := quote spell
    arr := bracketed
    obj := braced spell }

/-- Each character is read off the text it is spelled with, whatever follows. -/
def Spells : Prop :=
  forall c rest, readUnit (spell c ++ rest) = some (c, rest)

theorem text_arr
    (items : List Value) :
    text spell (.arr items) = bracketed (items.map (text spell)) :=
  Value.fold_arr _ items

theorem text_obj
    (members : List (String × Value)) :
    text spell (.obj members) = braced spell (Value.mapMembers (text spell) members) :=
  Value.fold_obj _ members

def memberText (m : String × Value) : List Char :=
  quote spell m.1 ++ ':' :: text spell m.2

theorem braced_mapMembers
    (members : List (String × Value)) :
    braced spell (Value.mapMembers (text spell) members) =
      '\x7b' :: (commas (members.map (memberText spell)) ++ ['\x7d']) := by
  rw [braced, Value.mapMembers, List.map_map]
  rfl

end Text

/-!
## Reading back
-/

theorem hexValue_digitChar
    {d : Nat} (hd : d < 16) :
    hexValue (Nat.digitChar d) = some d := by
  have hall : forall e, e < 16 -> hexValue (Nat.digitChar e) = some e := by
    decide
  exact hall d hd

theorem readHex4_hex4
    {n : Nat} (hn : n < 65536) (rest : List Char) :
    readHex4 (hex4 n ++ rest) = some (n, rest) := by
  have hsum : ((n / 4096 * 16 + n / 256 % 16) * 16 + n / 16 % 16) * 16 + n % 16 = n := by
    omega
  simp only [hex4, List.cons_append, List.nil_append, readHex4]
  rw [hexValue_digitChar (by omega), hexValue_digitChar (by omega), hexValue_digitChar (by omega),
    hexValue_digitChar (by omega)]
  simp only [Option.bind_some, Option.map_some, hsum]

section Spelled

variable {spell : Char -> List Char} (hspell : Spells spell)

include hspell

theorem spell_ne_nil
    (c : Char) :
    spell c ≠ [] := by
  intro hnil
  have hread := hspell c []
  rw [hnil] at hread
  cases hread

theorem head?_spell_ne_quote
    (c : Char) (rest : List Char) :
    (spell c ++ rest).head? ≠ some '"' := by
  intro hquote
  have hread := hspell c rest
  cases htext : spell c ++ rest with
  | nil =>
      rw [htext] at hquote
      cases hquote
  | cons d tail =>
      rw [htext] at hquote hread
      rw [Option.some.inj hquote] at hread
      cases hread

theorem length_le_flatMap_spell
    (cs : List Char) :
    cs.length ≤ (cs.flatMap spell).length := by
  induction cs with
  | nil => exact Nat.le_refl _
  | cons c cs ih =>
      have hpos := List.length_pos_iff.mpr (spell_ne_nil hspell c)
      rw [List.flatMap_cons, List.length_append, List.length_cons]
      omega

theorem length_le_quote
    (s : String) :
    s.toList.length + 2 ≤ (quote spell s).length := by
  have hle := length_le_flatMap_spell hspell s.toList
  rw [quote, List.length_cons, List.length_append, List.length_singleton]
  omega

theorem readChars_spell
    (cs rest : List Char) :
    forall fuel, cs.length < fuel ->
      readChars fuel (cs.flatMap spell ++ '"' :: rest) = some (cs, rest) := by
  induction cs with
  | nil =>
      intro fuel hfuel
      cases fuel with
      | zero => cases hfuel
      | succ fuel => rfl
  | cons c cs ih =>
      intro fuel hfuel
      cases fuel with
      | zero => cases hfuel
      | succ fuel =>
          rw [List.flatMap_cons, List.append_assoc, readChars,
            if_neg (head?_spell_ne_quote hspell c _), hspell, Option.bind_some,
            ih fuel (Nat.lt_of_succ_lt_succ hfuel)]
          rfl

end Spelled

/-!
### Lists
-/

theorem length_le_commas
    (pieces : List (List Char)) :
    pieces.length ≤ (commas pieces).length + 1 := by
  induction pieces with
  | nil => exact Nat.zero_le _
  | cons p pieces ih =>
      cases pieces with
      | nil => simp [commas]
      | cons q pieces =>
          simp only [commas, List.intercalate_cons_cons, List.length_append, List.length_cons,
            List.length_nil] at ih ⊢
          omega

theorem length_le_commas_of_mem
    {pieces : List (List Char)} {p : List Char} (hp : p ∈ pieces) :
    p.length ≤ (commas pieces).length := by
  induction pieces with
  | nil => cases hp
  | cons q pieces ih =>
      cases pieces with
      | nil =>
          rw [List.mem_singleton.mp hp]
          simp [commas]
      | cons r pieces =>
          simp only [commas, List.intercalate_cons_cons, List.length_append] at ih ⊢
          rcases List.mem_cons.mp hp with rfl | hp
          · omega
          · have hle := ih hp
            omega

theorem mem_commas
    {pieces : List (List Char)} (hc : c ∈ commas pieces) :
    c = ',' ∨ exists p, p ∈ pieces ∧ c ∈ p := by
  induction pieces with
  | nil => cases hc
  | cons p pieces ih =>
      cases pieces with
      | nil =>
          rw [commas, List.intercalate_singleton] at hc
          exact Or.inr ⟨p, List.mem_cons_self, hc⟩
      | cons q pieces =>
          rw [commas, List.intercalate_cons_cons, List.mem_append, List.mem_append] at hc
          rcases hc with (hp | hcomma) | hrest
          · exact Or.inr ⟨p, List.mem_cons_self, hp⟩
          · exact Or.inl (List.mem_singleton.mp hcomma)
          · rcases ih hrest with hcomma | ⟨r, hr, hcr⟩
            · exact Or.inl hcomma
            · exact Or.inr ⟨r, List.mem_cons_of_mem p hr, hcr⟩

section Series

variable {A : Type} {close : Char} {element : Reader A} {write : A -> List Char}
  (hspace : isSpace close = false) (hcomma : close ≠ ',') (hend : isNumberChar close = false)

include hspace hcomma hend

theorem readRest_commas
    (rest : List Char) (xs : List A) :
    forall fuel, xs ≠ [] -> xs.length ≤ fuel ->
      (forall a, a ∈ xs -> forall rest, Scan.EndsBefore isNumberChar rest ->
        element (write a ++ rest) = some (a, rest)) ->
      readRest close element fuel (commas (xs.map write) ++ close :: rest) = some (xs, rest) := by
  induction xs with
  | nil =>
      intro fuel hne
      exact absurd rfl hne
  | cons a xs ih =>
      intro fuel _ hfuel hread
      cases fuel with
      | zero => cases hfuel
      | succ fuel =>
          -- a comma or the closing character follows, and either ends a number
          have ha := hread a List.mem_cons_self
          cases xs with
          | nil =>
              have hone : commas ([a].map write) = write a := by simp [commas]
              rw [hone, readRest, ha _ (Scan.endsBefore_cons rest hend), Option.bind_some]
              simp only [expect_ne hspace hcomma, expect_self hspace, Option.map_some]
          | cons b xs =>
              have htail := ih fuel (List.cons_ne_nil b xs) (Nat.le_of_succ_le_succ hfuel)
                fun c hc => hread c (List.mem_cons_of_mem a hc)
              have hsplit : commas ((a :: b :: xs).map write) =
                  write a ++ ',' :: commas ((b :: xs).map write) := by
                simp [commas, List.intercalate_cons_cons]
              rw [hsplit, List.append_assoc, List.cons_append, readRest,
                ha _ (Scan.endsBefore_cons _ (by decide)), Option.bind_some]
              have hnext := expect_self (c := ',') (by decide)
                (commas ((b :: xs).map write) ++ close :: rest)
              simp only [hnext, htail, Option.map_some]

theorem readSeries_commas
    (rest : List Char) (xs : List A) (fuel : Nat) (hfuel : xs.length ≤ fuel)
    (hhead : forall a, a ∈ xs -> exists c cs, write a = c :: cs ∧ isSpace c = false ∧ c ≠ close)
    (hread : forall a, a ∈ xs -> forall rest, Scan.EndsBefore isNumberChar rest ->
      element (write a ++ rest) = some (a, rest)) :
    readSeries close element fuel (commas (xs.map write) ++ close :: rest) = some (xs, rest) := by
  unfold readSeries
  cases xs with
  | nil =>
      have hclose : expect close (commas (([] : List A).map write) ++ close :: rest) = some rest :=
        expect_self hspace rest
      rw [hclose]
  | cons a xs =>
      rcases hhead a List.mem_cons_self with ⟨c, cs, ha, hc, hne⟩
      have hopen : expect close (commas ((a :: xs).map write) ++ close :: rest) = none := by
        cases xs with
        | nil =>
            simp only [commas, List.map_cons, List.map_nil, List.intercalate_singleton, ha,
              List.cons_append, expect_ne hc hne]
        | cons b xs =>
            simp only [commas, List.map_cons, List.intercalate_cons_cons, ha, List.cons_append,
              expect_ne hc hne]
      rw [hopen]
      exact readRest_commas hspace hcomma hend rest _ fuel (List.cons_ne_nil a xs) hfuel hread

end Series

/-!
### Values
-/

theorem ne_of_isNumberChar
    {d : Char} (hc : isNumberChar c = true) (hd : isNumberChar d = false) :
    c ≠ d := by
  intro hcd
  rw [hcd, hd] at hc
  cases hc

theorem isSpace_of_isNumberChar
    (hc : isNumberChar c = true) :
    isSpace c = false := by
  have hblank : c ≠ ' ' := ne_of_isNumberChar hc (by decide)
  have htab : c ≠ '\t' := ne_of_isNumberChar hc (by decide)
  have hline : c ≠ '\n' := ne_of_isNumberChar hc (by decide)
  have hreturn : c ≠ '\r' := ne_of_isNumberChar hc (by decide)
  simp [isSpace, hblank, htab, hline, hreturn]

theorem readValue_scalar
    {c : Char} (hspace : isSpace c = false) (hquote : c ≠ '"') (hbracket : c ≠ '[')
    (hbrace : c ≠ '\x7b') (fuel : Nat) (cs : List Char) :
    readValue (fuel + 1) (c :: cs) = readScalar (c :: cs) := by
  simp only [readValue, expect_ne hspace hquote, expect_ne hspace hbracket,
    expect_ne hspace hbrace, List.dropWhile_cons, hspace, Bool.false_eq_true, if_false]

variable {rest : List Char}

theorem readNumber_token
    (t : NumberToken) (hrest : Scan.EndsBefore isNumberChar rest) :
    readNumber (t.text ++ rest) = some (Value.num t, rest) := by
  rw [readNumber, over_numberScan.append t.whole hrest, Option.bind_some, dif_pos t.whole]

theorem readValue_token
    (t : NumberToken) (hrest : Scan.EndsBefore isNumberChar rest) (fuel : Nat) :
    readValue (fuel + 1) (t.text ++ rest) = some (Value.num t, rest) := by
  have hread := readNumber_token t hrest
  rcases t.text_eq_cons with ⟨c, cs, htext, hc⟩
  have hne : forall d, isNumberChar d = false -> c ≠ d := fun d => ne_of_isNumberChar hc
  rw [htext, List.cons_append] at hread ⊢
  rw [readValue_scalar (isSpace_of_isNumberChar hc) (hne '"' (by decide)) (hne '[' (by decide))
    (hne '\x7b' (by decide))]
  simp only [readScalar, List.take_succ_cons, String.reduceToList, List.cons.injEq,
    hne 'n' (by decide), hne 't' (by decide), hne 'f' (by decide), false_and, if_false]
  exact hread

theorem readValue_bracket
    (fuel : Nat) (cs : List Char) :
    readValue (fuel + 1) ('[' :: cs) =
      (readSeries ']' (readValue fuel) fuel cs).map fun p => (.arr p.1, p.2) :=
  rfl

theorem readValue_brace
    (fuel : Nat) (cs : List Char) :
    readValue (fuel + 1) ('\x7b' :: cs) =
      (readSeries '\x7d' (readMember fuel (readValue fuel)) fuel cs).map fun p =>
        (.obj p.1, p.2) :=
  rfl

theorem readValue_quote
    (fuel : Nat) (cs : List Char) :
    readValue (fuel + 1) ('"' :: cs) =
      (readChars fuel cs).map fun s => (Value.str (String.ofList s.1), s.2) :=
  rfl

section Spelled

variable {spell : Char -> List Char} (hspell : Spells spell) (v : Value)

theorem text_eq_cons :
    exists c cs, text spell v = c :: cs ∧ isSpace c = false ∧ c ≠ ']' := by
  cases v with
  | null => exact ⟨_, _, rfl, by decide, by decide⟩
  | bool b =>
      cases b with
      | false => exact ⟨_, _, rfl, by decide, by decide⟩
      | true => exact ⟨_, _, rfl, by decide, by decide⟩
  | num t =>
      rcases t.text_eq_cons with ⟨c, cs, htext, hc⟩
      exact ⟨c, cs, htext, isSpace_of_isNumberChar hc, ne_of_isNumberChar hc (by decide)⟩
  | str s => exact ⟨_, _, rfl, by decide, by decide⟩
  | arr items => exact ⟨_, _, text_arr spell items, by decide, by decide⟩
  | obj members => exact ⟨_, _, text_obj spell members, by decide, by decide⟩

include hspell

variable {fuel : Nat}

theorem readMember_text
    {m : String × Value} (hfuel : m.1.toList.length < fuel)
    (hvalue : readValue fuel (text spell m.2 ++ rest) = some (m.2, rest)) :
    readMember fuel (readValue fuel) (memberText spell m ++ rest) = some (m, rest) := by
  have hopen := expect_self (c := '"') (by decide)
    (m.1.toList.flatMap spell ++ '"' :: ':' :: (text spell m.2 ++ rest))
  have hcolon := expect_self (c := ':') (by decide) (text spell m.2 ++ rest)
  have hchars := readChars_spell hspell m.1.toList (':' :: (text spell m.2 ++ rest)) fuel hfuel
  simp only [memberText, quote, List.cons_append, List.append_assoc, List.nil_append, readMember]
  rw [hopen, Option.bind_some, hchars, Option.bind_some, hcolon, Option.bind_some, hvalue,
    Option.map_some, String.ofList_toList]

omit hspell in
theorem readSeries_items
    {items : List Value} (rest : List Char)
    (hfuel : (commas (items.map (text spell))).length < fuel)
    (hread : forall x, x ∈ items -> forall rest, (text spell x).length < fuel ->
      Scan.EndsBefore isNumberChar rest -> readValue fuel (text spell x ++ rest) = some (x, rest)) :
    readSeries ']' (readValue fuel) fuel (commas (items.map (text spell)) ++ ']' :: rest) =
      some (items, rest) := by
  apply readSeries_commas (by decide) (by decide) (by decide)
  · have hcount := length_le_commas (items.map (text spell))
    rw [List.length_map] at hcount
    omega
  · exact fun x _ => text_eq_cons x
  · intro x hx rest hrest
    have hlength := length_le_commas_of_mem (List.mem_map_of_mem (f := text spell) hx)
    exact hread x hx rest (by omega) hrest

theorem readSeries_members
    {members : List (String × Value)} (rest : List Char)
    (hfuel : (commas (members.map (memberText spell))).length < fuel)
    (hread : forall m, m ∈ members -> forall rest, (text spell m.2).length < fuel ->
      Scan.EndsBefore isNumberChar rest ->
        readValue fuel (text spell m.2 ++ rest) = some (m.2, rest)) :
    readSeries '\x7d' (readMember fuel (readValue fuel)) fuel
        (commas (members.map (memberText spell)) ++ '\x7d' :: rest) = some (members, rest) := by
  apply readSeries_commas (by decide) (by decide) (by decide)
  · have hcount := length_le_commas (members.map (memberText spell))
    rw [List.length_map] at hcount
    omega
  · exact fun m _ => ⟨_, _, rfl, by decide, by decide⟩
  · intro m hm rest hrest
    have hpiece := length_le_commas_of_mem (List.mem_map_of_mem (f := memberText spell) hm)
    have hkey := length_le_quote hspell m.1
    rw [memberText, List.length_append, List.length_cons] at hpiece
    apply readMember_text hspell (by omega)
    exact hread m hm rest (by omega) hrest

theorem readValue_text :
    forall fuel rest, (text spell v).length ≤ fuel -> Scan.EndsBefore isNumberChar rest ->
      readValue (fuel + 1) (text spell v ++ rest) = some (v, rest) := by
  induction v using Value.induct with
  | hnull => exact fun fuel rest _ _ => rfl
  | hbool b =>
      cases b with
      | false => exact fun fuel rest _ _ => rfl
      | true => exact fun fuel rest _ _ => rfl
  | hnum t => exact fun fuel rest _ hrest => readValue_token t hrest fuel
  | hstr s =>
      intro fuel rest hfuel hrest
      have htext : text spell (Value.str s) = quote spell s := rfl
      rw [htext] at hfuel ⊢
      have hlength := length_le_quote hspell s
      have hchars := readChars_spell hspell s.toList rest fuel (by omega)
      rw [quote, List.cons_append, List.append_assoc, List.singleton_append, readValue_quote, hchars,
        Option.map_some, String.ofList_toList]
  | harr items ih =>
      intro fuel rest hfuel hrest
      have hitems : forall x, x ∈ items -> forall rest, (text spell x).length < fuel ->
          Scan.EndsBefore isNumberChar rest ->
            readValue fuel (text spell x ++ rest) = some (x, rest) := by
        intro x hx rest hlt hrest
        cases fuel with
        | zero => cases hlt
        | succ fuel => exact ih x hx fuel rest (Nat.le_of_lt_succ hlt) hrest
      rw [text_arr, bracketed] at hfuel ⊢
      rw [List.length_cons, List.length_append, List.length_singleton] at hfuel
      rw [List.cons_append, List.append_assoc, List.singleton_append, readValue_bracket,
        readSeries_items rest (by omega) hitems, Option.map_some]
  | hobj members ih =>
      intro fuel rest hfuel hrest
      have hmembers : forall m, m ∈ members -> forall rest, (text spell m.2).length < fuel ->
          Scan.EndsBefore isNumberChar rest ->
            readValue fuel (text spell m.2 ++ rest) = some (m.2, rest) := by
        intro m hm rest hlt hrest
        cases fuel with
        | zero => cases hlt
        | succ fuel => exact ih m hm fuel rest (Nat.le_of_lt_succ hlt) hrest
      rw [text_obj, braced_mapMembers] at hfuel ⊢
      rw [List.length_cons, List.length_append, List.length_singleton] at hfuel
      rw [List.cons_append, List.append_assoc, List.singleton_append, readValue_brace,
        readSeries_members hspell rest (by omega) hmembers, Option.map_some]

theorem parse_text :
    parse (text spell v) = some v := by
  have hread := readValue_text hspell v (text spell v).length [] (Nat.le_refl _)
    (Scan.endsBefore_nil isNumberChar)
  rw [List.append_nil] at hread
  rw [parse, hread]
  rfl

theorem text_injective : Function.Injective (text spell) := by
  intro u v h
  have hparse := parse_text hspell u
  rw [h, parse_text hspell v] at hparse
  exact (Option.some.inj hparse).symm

end Spelled

/-!
## The characters of a text
-/

def grammarChars : List Char :=
  "nulltruefalse\",:[]\x7b\x7d".toList

section Chars

variable {spell : Char -> List Char} {P : Char -> Prop}
  (hspell : forall c d, d ∈ spell c -> P d) (hnumber : forall c, isNumberChar c = true -> P c)
  (hgrammar : forall c, c ∈ grammarChars -> P c)

include hspell hgrammar in
theorem of_mem_quote
    (s : String) (hc : c ∈ quote spell s) :
    P c := by
  rw [quote, List.mem_cons, List.mem_append, List.mem_flatMap, List.mem_singleton] at hc
  rcases hc with rfl | ⟨d, -, hd⟩ | rfl
  · exact hgrammar _ (by decide)
  · exact hspell d c hd
  · exact hgrammar _ (by decide)

include hspell hnumber hgrammar in
theorem of_mem_text
    (v : Value) :
    forall c, c ∈ text spell v -> P c := by
  induction v using Value.induct with
  | hnull =>
      have hall : "null".toList ⊆ grammarChars := by decide
      exact fun c hc => hgrammar c (hall hc)
  | hbool b =>
      have hall : (if b then "true" else "false").toList ⊆ grammarChars := by
        cases b <;> decide
      exact fun c hc => hgrammar c (hall hc)
  | hnum t => exact fun c hc => hnumber c (t.isNumberChar_of_mem hc)
  | hstr s => exact fun c hc => of_mem_quote hspell hgrammar s hc
  | harr items ih =>
      intro c hc
      rw [text_arr, bracketed, List.mem_cons, List.mem_append, List.mem_singleton] at hc
      rcases hc with rfl | hcommas | rfl
      · exact hgrammar _ (by decide)
      · rcases mem_commas hcommas with rfl | ⟨p, hp, hcp⟩
        · exact hgrammar _ (by decide)
        · rcases List.mem_map.mp hp with ⟨x, hx, rfl⟩
          exact ih x hx c hcp
      · exact hgrammar _ (by decide)
  | hobj members ih =>
      intro c hc
      rw [text_obj, braced_mapMembers, List.mem_cons, List.mem_append, List.mem_singleton] at hc
      rcases hc with rfl | hcommas | rfl
      · exact hgrammar _ (by decide)
      · rcases mem_commas hcommas with rfl | ⟨p, hp, hcp⟩
        · exact hgrammar _ (by decide)
        · rcases List.mem_map.mp hp with ⟨m, hm, rfl⟩
          rw [memberText, List.mem_append, List.mem_cons] at hcp
          rcases hcp with hkey | rfl | hvalue
          · exact of_mem_quote hspell hgrammar m.1 hkey
          · exact hgrammar _ (by decide)
          · exact ih m hm c hvalue
      · exact hgrammar _ (by decide)

end Chars

end CirisPersist.JsonText
