import CirisPersist.Base.Bytes
import CirisPersist.Library.JsonText
import Mathlib.Data.List.Lex

/-!
# The V1 signing form

The bytes an audit row signs are those of Python's `json.dumps` with sorted keys and
escaped non-ASCII characters.  The writer leaves the two signature members of the
envelope out while it writes, so that a signature never covers itself.

What is written is the sorted form of the envelope without its signatures, in a spelling
that a reader of JSON undoes.  So the bytes determine the rest of the envelope as a
key-value map and nothing about the order its members came in.
-/

namespace CirisPersist.Canonical

open JsonText

/-- A `serde_json::Value`: a map holds one value under a key. -/
structure SerdeValue where
  value : Value
  distinct : value.distinctKeys = true

/-!
## The writer
-/

def shortForms : List (Char × Char) :=
  [('"', '"'), ('\\', '\\'), ('\x08', 'b'), ('\x0c', 'f'), ('\n', 'n'), ('\r', 'r'), ('\t', 't')]

def writeChar (c : Char) : List Char :=
  match shortForms.lookup c with
  | some letter => ['\\', letter]
  | none =>
      if c.toNat < 0x20 then '\\' :: 'u' :: hex4 c.toNat
      else if c.toNat < 0x7F then [c]
      else if c.toNat ≤ 0xFFFF then '\\' :: 'u' :: hex4 c.toNat
      else
        -- outside the basic plane: a UTF-16 surrogate pair
        let cp := c.toNat - 0x10000
        '\\' :: 'u' :: hex4 (0xD800 + (cp >>> 10)) ++
          '\\' :: 'u' :: hex4 (0xDC00 + (cp &&& 0x3FF))

def writeString (s : String) : List Char :=
  quote writeChar s

def keyBytes (k : String) : List Nat :=
  k.toUTF8.data.toList.map UInt8.toNat

/-- One object without the members named in `skip`; each member comes with its value
written. -/
def writeObject (skip : List String) (members : List (String × List Char)) : List Char :=
  braced writeChar (Value.sortByKey keyBytes (members.filter fun m => !skip.contains m.1))

def writeValue : Value -> List Char :=
  Value.fold {
    null := "null".toList
    bool := fun b => (if b then "true" else "false").toList
    num := NumberToken.text
    str := writeString
    arr := bracketed
    obj := writeObject [] }

def signatureMembers : List String :=
  ["signature", "signature_pqc"]

def signingText : Value -> List Char
  | .obj members => writeObject signatureMembers (Value.mapMembers writeValue members)
  | v => writeValue v

/-- Every piece the writer adds to its buffer is the UTF-8 of a text. -/
def canonicalizeEnvelopeForSigningV1Pinned (envelope : SerdeValue) : ByteArray :=
  (String.ofList (signingText envelope.value)).toUTF8

def stripped : Value -> Value
  | .obj members => .obj (members.filter fun m => !signatureMembers.contains m.1)
  | v => v

def parseBytes (bytes : ByteArray) : Option Value :=
  (String.fromUTF8? bytes).bind fun s => parse s.toList

/-!
## The spelling of characters
-/

inductive Spelling (c : Char) : Prop where
  | short (letter : Char) (hletter : letter ≠ 'u') (hascii : letter.toNat < 128)
      (hread : shortEscapes.lookup letter = some c) (hwrite : writeChar c = ['\\', letter])
  | plain (hquote : c ≠ '"') (hbackslash : c ≠ '\\') (hcontrol : ¬ c.toNat < 0x20)
      (hascii : c.toNat < 128) (hwrite : writeChar c = [c])
  | unit (hplane : c.toNat ≤ 0xFFFF) (hwrite : writeChar c = '\\' :: 'u' :: hex4 c.toNat)
  | pair (high low : Nat) (hhigh : 0xD800 ≤ high ∧ high < 0xDC00)
      (hlow : 0xDC00 ≤ low ∧ low < 0xE000)
      (hpair : 0x10000 + (high - 0xD800) * 0x400 + (low - 0xDC00) = c.toNat)
      (hwrite : writeChar c = '\\' :: 'u' :: hex4 high ++ '\\' :: 'u' :: hex4 low)

theorem toNat_valid
    (c : Char) :
    c.toNat < 0xD800 ∨ 0xDFFF < c.toNat ∧ c.toNat < 0x110000 :=
  c.valid

theorem spelling_pair
    {c : Char} (hshort : shortForms.lookup c = none) (hplane : ¬ c.toNat ≤ 0xFFFF) :
    Spelling c := by
  have hvalid := toNat_valid c
  have hlow : (c.toNat - 0x10000) &&& 0x3FF = (c.toNat - 0x10000) % 1024 :=
    Nat.and_two_pow_sub_one_eq_mod _ 10
  have hhigh : (c.toNat - 0x10000) >>> 10 = (c.toNat - 0x10000) / 1024 :=
    Nat.shiftRight_eq_div_pow _ 10
  have hwrite : writeChar c =
      '\\' :: 'u' :: hex4 (0xD800 + (c.toNat - 0x10000) / 1024) ++
        '\\' :: 'u' :: hex4 (0xDC00 + (c.toNat - 0x10000) % 1024) := by
    rw [writeChar, hshort, ← hlow, ← hhigh]
    simp only
    rw [if_neg (by omega), if_neg (by omega), if_neg hplane]
  exact Spelling.pair _ _ (by omega) (by omega) (by omega) hwrite

theorem spelling
    (c : Char) :
    Spelling c := by
  cases hshort : shortForms.lookup c with
  | some letter =>
      have hforms : forall p, p ∈ shortForms ->
          p.2 ≠ 'u' ∧ p.2.toNat < 128 ∧ shortEscapes.lookup p.2 = some p.1 := by
        decide
      rcases List.lookup_eq_some_iff.mp hshort with ⟨before, after, hsplit, -⟩
      have hmem : (c, letter) ∈ shortForms := by
        rw [hsplit]
        exact List.mem_append_right before List.mem_cons_self
      rcases hforms _ hmem with ⟨hletter, hascii, hread⟩
      exact Spelling.short letter hletter hascii hread (by rw [writeChar, hshort])
  | none =>
      have hnone := List.lookup_eq_none_iff.mp hshort
      have hquote : c ≠ '"' := by simpa using hnone ('"', '"') (by decide)
      have hbackslash : c ≠ '\\' := by simpa using hnone ('\\', '\\') (by decide)
      by_cases hcontrol : c.toNat < 0x20
      · have hwrite : writeChar c = '\\' :: 'u' :: hex4 c.toNat := by
          simp only [writeChar, hshort, if_pos hcontrol]
        exact .unit (by omega) hwrite
      · by_cases hprint : c.toNat < 0x7F
        · have hwrite : writeChar c = [c] := by
            simp only [writeChar, hshort, if_neg hcontrol, if_pos hprint]
          exact .plain hquote hbackslash hcontrol (by omega) hwrite
        · by_cases hplane : c.toNat ≤ 0xFFFF
          · have hwrite : writeChar c = '\\' :: 'u' :: hex4 c.toNat := by
              simp only [writeChar, hshort, if_neg hcontrol, if_neg hprint, if_pos hplane]
            exact .unit hplane hwrite
          · exact spelling_pair hshort hplane

theorem readUnit_unicode
    {n : Nat} (hn : n < 65536) (hsurrogate : n < 0xD800 ∨ 0xE000 ≤ n) (rest : List Char) :
    readUnit ('\\' :: 'u' :: hex4 n ++ rest) = some (Char.ofNat n, rest) := by
  show readUnicode (hex4 n ++ rest) = some (Char.ofNat n, rest)
  rw [readUnicode, readHex4_hex4 hn, Option.bind_some, if_pos hsurrogate]

theorem readUnit_pair
    {high low : Nat} (hhigh : 0xD800 ≤ high ∧ high < 0xDC00) (hlow : 0xDC00 ≤ low ∧ low < 0xE000)
    (rest : List Char) :
    readUnit ('\\' :: 'u' :: hex4 high ++ '\\' :: 'u' :: hex4 low ++ rest) =
      some (Char.ofNat (0x10000 + (high - 0xD800) * 0x400 + (low - 0xDC00)), rest) := by
  show readUnicode (hex4 high ++ '\\' :: 'u' :: hex4 low ++ rest) = _
  rw [List.append_assoc, readUnicode, readHex4_hex4 (by omega), Option.bind_some,
    if_neg (by omega), if_pos hhigh.2]
  show (readHex4 (hex4 low ++ rest)).bind _ = _
  rw [readHex4_hex4 (by omega), Option.bind_some, if_pos hlow]

theorem spells_writeChar : Spells writeChar := by
  intro c rest
  cases spelling c with
  | short letter hletter hascii hread hwrite =>
      rw [hwrite]
      show readEscape (letter :: rest) = some (c, rest)
      rw [readEscape, if_neg hletter, hread]
      rfl
  | plain hquote hbackslash hcontrol hascii hwrite =>
      have hplain : ¬ (c = '"' ∨ c.toNat < 0x20) := not_or.mpr ⟨hquote, hcontrol⟩
      rw [hwrite, List.singleton_append, readUnit, if_neg hbackslash, if_neg hplain]
  | unit hplane hwrite =>
      have hvalid := toNat_valid c
      rw [hwrite, readUnit_unicode (by omega) (by omega), Char.ofNat_toNat]
  | pair high low hhigh hlow hpair hwrite =>
      rw [hwrite, readUnit_pair hhigh hlow, hpair, Char.ofNat_toNat]

theorem unicode_ascii
    {n : Nat} (hn : n < 65536) {d : Char} (hd : d ∈ '\\' :: 'u' :: hex4 n) :
    d.toNat < 128 := by
  have hall : forall e, e < 16 -> (Nat.digitChar e).toNat < 128 := by
    decide
  simp only [hex4, List.mem_cons, List.not_mem_nil, or_false] at hd
  rcases hd with rfl | rfl | rfl | rfl | rfl | rfl
  · decide
  · decide
  · exact hall _ (by omega)
  · exact hall _ (by omega)
  · exact hall _ (by omega)
  · exact hall _ (by omega)

theorem writeChar_ascii
    (c d : Char) (hd : d ∈ writeChar c) :
    d.toNat < 128 := by
  cases spelling c with
  | short letter hletter hascii hread hwrite =>
      rw [hwrite] at hd
      rcases List.mem_cons.mp hd with rfl | hd
      · decide
      · rwa [List.mem_singleton.mp hd]
  | plain hquote hbackslash hcontrol hascii hwrite =>
      rw [hwrite] at hd
      rwa [List.mem_singleton.mp hd]
  | unit hplane hwrite =>
      rw [hwrite] at hd
      exact unicode_ascii (by omega) hd
  | pair high low hhigh hlow hpair hwrite =>
      rw [hwrite] at hd
      rcases List.mem_append.mp hd with hd | hd
      · exact unicode_ascii (by omega) hd
      · exact unicode_ascii (by omega) hd

theorem isNumberChar_ascii
    (c : Char) (hc : isNumberChar c = true) :
    c.toNat < 128 := by
  simp only [isNumberChar, Bool.or_eq_true, beq_iff_eq] at hc
  rcases hc with ((((hdigit | rfl) | rfl) | rfl) | rfl) | rfl
  · have hle := (Char.isDigit_iff_toNat.mp hdigit).2
    have hnine : '9'.toNat = 57 := rfl
    omega
  all_goals decide

/-!
## What is written
-/

theorem keyBytes_injective : Function.Injective keyBytes := by
  intro k k' h
  have hbytes := List.map_injective_iff.mpr (fun _ _ => UInt8.toNat_inj.mp) h
  exact String.toByteArray_inj.mp (ByteArray.ext (Array.toList_inj.mp hbytes))

theorem writeObject_eq_text
    (skip : List String) {members : List (String × Value)}
    (hmembers : forall m, m ∈ members ->
      writeValue m.2 = text writeChar (Value.sorted keyBytes m.2)) :
    writeObject skip (Value.mapMembers writeValue members) =
      text writeChar (Value.sorted keyBytes
        (Value.obj (members.filter fun m => !skip.contains m.1))) := by
  have hkept : Value.mapMembers writeValue
      (Value.sortByKey keyBytes (members.filter fun m => !skip.contains m.1)) =
        Value.mapMembers (fun x => text writeChar (Value.sorted keyBytes x))
          (Value.sortByKey keyBytes (members.filter fun m => !skip.contains m.1)) := by
    apply Value.mapMembers_congr
    intro m hm
    apply hmembers m
    exact List.mem_of_mem_filter ((Value.perm_sortByKey keyBytes _).mem_iff.mp hm)
  rw [writeObject, Value.filter_mapMembers writeValue fun k => !skip.contains k,
    Value.sortByKey_mapMembers, hkept, Value.sorted_obj, Value.sortByKey_mapMembers, text_obj,
    Value.mapMembers_mapMembers]

theorem writeValue_eq_text
    (v : Value) :
    writeValue v = text writeChar (Value.sorted keyBytes v) := by
  induction v using Value.induct with
  | hnull => rfl
  | hbool b => rfl
  | hnum t => rfl
  | hstr s => rfl
  | harr items ih =>
      have hitems : items.map writeValue =
          items.map fun x => text writeChar (Value.sorted keyBytes x) :=
        List.map_congr_left ih
      have hwrite : writeValue (Value.arr items) = bracketed (items.map writeValue) :=
        Value.fold_arr _ items
      rw [hwrite, hitems, Value.sorted_arr, text_arr, List.map_map]
      rfl
  | hobj members ih =>
      have hwrite : writeValue (Value.obj members) =
          writeObject [] (Value.mapMembers writeValue members) :=
        Value.fold_obj _ members
      have hall : (members.filter fun m => !([] : List String).contains m.1) = members :=
        List.filter_true members
      rw [hwrite, writeObject_eq_text [] ih, hall]

theorem signingText_eq_text
    (v : Value) :
    signingText v = text writeChar (Value.sorted keyBytes (stripped v)) := by
  cases v with
  | obj members => exact writeObject_eq_text signatureMembers fun m _ => writeValue_eq_text m.2
  | _ => exact writeValue_eq_text _

theorem distinctKeys_stripped
    {v : Value} (hv : v.distinctKeys = true) :
    (stripped v).distinctKeys = true := by
  cases v with
  | obj members =>
      rw [Value.distinctKeys_obj] at hv
      rw [stripped, Value.distinctKeys_obj]
      constructor
      · exact hv.1.sublist (List.filter_sublist.map Prod.fst)
      · exact fun m hm => hv.2 m (List.mem_of_mem_filter hm)
  | _ => exact hv

theorem same_stripped
    {u v : Value} (h : Value.Same u v) :
    Value.Same (stripped u) (stripped v) := by
  cases h with
  | @obj members members' hkeys hsame =>
      apply Value.Same.obj
      · intro k
        rw [Value.mem_keys_filter (p := fun k => !signatureMembers.contains k), hkeys,
          Value.mem_keys_filter (p := fun k => !signatureMembers.contains k)]
      · intro k x y hx hy
        exact hsame k x y (List.mem_of_mem_filter hx) (List.mem_of_mem_filter hy)
  | null => exact Value.Same.null
  | bool b => exact Value.Same.bool b
  | num t => exact Value.Same.num t
  | str s => exact Value.Same.str s
  | arr hlength hsame => exact Value.Same.arr hlength hsame

section Bytes

variable (u v : SerdeValue)

theorem canonicalize_eq_iff :
    canonicalizeEnvelopeForSigningV1Pinned u = canonicalizeEnvelopeForSigningV1Pinned v <->
      Value.Same (stripped u.value) (stripped v.value) := by
  have hbytes : canonicalizeEnvelopeForSigningV1Pinned u =
      canonicalizeEnvelopeForSigningV1Pinned v <-> signingText u.value = signingText v.value := by
    constructor
    · intro h
      have htext := congrArg String.toList (String.toByteArray_inj.mp h)
      rwa [String.toList_ofList, String.toList_ofList] at htext
    · intro h
      rw [canonicalizeEnvelopeForSigningV1Pinned, h]
      rfl
  rw [hbytes, signingText_eq_text, signingText_eq_text, (text_injective spells_writeChar).eq_iff,
    Value.sorted_eq_iff_same keyBytes_injective (distinctKeys_stripped u.distinct)
      (distinctKeys_stripped v.distinct)]

variable {u v} in
theorem canonicalize_eq_of_same
    (h : Value.Same u.value v.value) :
    canonicalizeEnvelopeForSigningV1Pinned u = canonicalizeEnvelopeForSigningV1Pinned v := by
  apply (canonicalize_eq_iff u v).mpr
  exact same_stripped h

theorem canonicalize_ascii
    (b : UInt8) (hb : b ∈ (canonicalizeEnvelopeForSigningV1Pinned u).toList) :
    b.toNat < 128 := by
  have hgrammar : grammarChars.Forall fun c => c.toNat < 128 := by
    decide
  apply toNat_lt_of_mem_toUTF8 _ hb
  rw [signingText_eq_text]
  exact of_mem_text writeChar_ascii isNumberChar_ascii (List.forall_iff_forall_mem.mp hgrammar) _

theorem parseBytes_canonicalize :
    parseBytes (canonicalizeEnvelopeForSigningV1Pinned u) =
      some (Value.sorted keyBytes (stripped u.value)) := by
  have hutf8 : String.fromUTF8? (canonicalizeEnvelopeForSigningV1Pinned u) =
      some (String.ofList (signingText u.value)) :=
    dif_pos (String.ofList (signingText u.value)).isValidUTF8
  rw [parseBytes, hutf8, Option.bind_some, String.toList_ofList, signingText_eq_text,
    parse_text spells_writeChar]

end Bytes

example :
    signingText (Value.obj [("b", Value.str "é\x7f\n/"), ("signature", Value.str "x"),
        ("a", Value.num ⟨"1.0".toList, by decide⟩), ("😀", Value.null)]) =
      ("\x7b\"a\":1.0,\"b\":\"\\u00e9\\u007f\\n/\",\"\\ud83d\\ude00\":null\x7d").toList := by
  decide +kernel

end CirisPersist.Canonical
