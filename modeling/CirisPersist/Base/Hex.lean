import CirisPersist.Base.Text

/-!
# Content addresses and their text

A blob is stored under the SHA-256 of its bytes; the hash itself is a parameter.
Addresses are written in lowercase hex and read in either case.  The functions follow
the `hex` crate, which works on the bytes of the text: a text of odd byte length is
refused before any digit is looked at.
-/

namespace CirisPersist
namespace Hex

inductive HexError where
  | oddLength
  | invalidStringLength
  | invalidHexCharacter (c : Char) (index : Nat)
deriving DecidableEq

def HexError.text : HexError -> String
  | oddLength => "Odd number of digits"
  | invalidStringLength => "Invalid string length"
  | invalidHexCharacter c index =>
      "Invalid character " ++ Text.debugChar c ++ " at position " ++ index.repr

def encodeByte (b : UInt8) : List Char :=
  [Nat.digitChar (b.toNat / 16), Nat.digitChar (b.toNat % 16)]

def encode (bytes : List UInt8) : String :=
  String.ofList (bytes.flatMap encodeByte)

/-- The first byte of the character, as the character of that number. -/
def leadByte (c : Char) : Char :=
  if c.toNat < 0x80 then c
  else if c.toNat < 0x800 then Char.ofNat (0xC0 + c.toNat / 0x40)
  else if c.toNat < 0x10000 then Char.ofNat (0xE0 + c.toNat / 0x1000)
  else Char.ofNat (0xF0 + c.toNat / 0x40000)

def val (c : Char) (index : Nat) : Except HexError Nat :=
  if 'A' ≤ c ∧ c ≤ 'F' then .ok (c.toNat - 'A'.toNat + 10)
  else if 'a' ≤ c ∧ c ≤ 'f' then .ok (c.toNat - 'a'.toNat + 10)
  else if '0' ≤ c ∧ c ≤ '9' then .ok (c.toNat - '0'.toNat)
  else .error (.invalidHexCharacter (leadByte c) index)

/-- A text of even byte length ends in an unpaired character only if that one is longer
than a byte. -/
def decodeChars : Nat -> List Char -> Except HexError (List UInt8)
  | _, [] => .ok []
  | index, [c] => .error (.invalidHexCharacter (leadByte c) index)
  | index, a :: b :: rest => do
      let high ← val a index
      let low ← val b (index + 1)
      let bytes ← decodeChars (index + 2) rest
      .ok (UInt8.ofNat (16 * high + low) :: bytes)

def decode (s : String) : Except HexError (List UInt8) :=
  if s.utf8ByteSize % 2 = 0 then decodeChars 0 s.toList else .error .oddLength

def decodeToSlice (length : Nat) (s : String) : Except HexError (List UInt8) :=
  if s.utf8ByteSize % 2 ≠ 0 then .error .oddLength
  else if s.utf8ByteSize / 2 ≠ length then .error .invalidStringLength
  else decodeChars 0 s.toList

/-!
## Reading back
-/

theorem val_digitChar
    {d : Nat} (hd : d < 16) (index : Nat) :
    val (Nat.digitChar d) index = .ok d := by
  have hall : forall e, e < 16 ->
      (if 'A' ≤ Nat.digitChar e ∧ Nat.digitChar e ≤ 'F' then
          some ((Nat.digitChar e).toNat - 'A'.toNat + 10)
        else if 'a' ≤ Nat.digitChar e ∧ Nat.digitChar e ≤ 'f' then
          some ((Nat.digitChar e).toNat - 'a'.toNat + 10)
        else if '0' ≤ Nat.digitChar e ∧ Nat.digitChar e ≤ '9' then
          some ((Nat.digitChar e).toNat - '0'.toNat)
        else none) = some e := by
    decide
  have hd' := hall d hd
  unfold val
  split_ifs at hd' ⊢ <;> simp_all

variable (bytes : List UInt8)

theorem decodeChars_encodeByte :
    forall index, decodeChars index (bytes.flatMap encodeByte) = .ok bytes := by
  induction bytes with
  | nil =>
      intro index
      rfl
  | cons b rest ih =>
      intro index
      have hb := b.toNat_lt
      have hsum : 16 * (b.toNat / 16) + b.toNat % 16 = b.toNat := Nat.div_add_mod _ _
      have hhigh := val_digitChar (show b.toNat / 16 < 16 by omega) index
      have hlow := val_digitChar (show b.toNat % 16 < 16 by omega) (index + 1)
      rw [List.flatMap_cons, encodeByte, List.cons_append, List.singleton_append, decodeChars, hhigh,
        hlow, ih (index + 2)]
      simp only [bind, Except.bind, hsum, UInt8.ofNat_toNat]

theorem isAlphanum_of_mem_encode
    {bytes : List UInt8} {c : Char} (hc : c ∈ (encode bytes).toList) :
    c.isAlphanum = true := by
  have hdigit : forall d, d < 16 -> (Nat.digitChar d).isAlphanum = true := by
    decide
  rw [encode, String.toList_ofList, List.mem_flatMap] at hc
  rcases hc with ⟨b, -, hb⟩
  have hlt := b.toNat_lt
  simp only [encodeByte, List.mem_cons, List.not_mem_nil, or_false] at hb
  rcases hb with rfl | rfl
  · exact hdigit _ (by omega)
  · exact hdigit _ (by omega)

theorem utf8ByteSize_encode :
    (encode bytes).utf8ByteSize = 2 * bytes.length := by
  have hdigit : forall d, d < 16 -> (Nat.digitChar d).utf8Size = 1 := by
    decide
  induction bytes with
  | nil => rfl
  | cons b rest ih =>
      have hlt := b.toNat_lt
      have hcons : encode (b :: rest) = String.ofList (encodeByte b) ++ encode rest := by
        simp [encode, String.ofList_append]
      have hbyte : (String.ofList (encodeByte b)).utf8ByteSize = 2 := by
        simp [encodeByte, hdigit (b.toNat / 16) (by omega), hdigit (b.toNat % 16) (by omega)]
      rw [hcons, String.utf8ByteSize_append, hbyte, ih, List.length_cons]
      omega

theorem decode_encode :
    decode (encode bytes) = .ok bytes := by
  rw [decode, utf8ByteSize_encode, if_pos (by omega), encode, String.toList_ofList,
    decodeChars_encodeByte]

theorem decodeToSlice_encode :
    decodeToSlice bytes.length (encode bytes) = .ok bytes := by
  rw [decodeToSlice, utf8ByteSize_encode, if_neg (by omega), if_neg (by omega), encode,
    String.toList_ofList, decodeChars_encodeByte]

end Hex

/-!
## Addresses
-/

structure Sha256 where
  bytes : List UInt8
  length_bytes : bytes.length = 32
deriving DecidableEq

namespace Sha256

def ofBytes (bytes : List UInt8) : Option Sha256 :=
  if h : bytes.length = 32 then some ⟨bytes, h⟩ else none

@[simp]
theorem ofBytes_bytes
    (sha : Sha256) :
    ofBytes sha.bytes = some sha :=
  dif_pos sha.length_bytes

def hex (sha : Sha256) : String :=
  Hex.encode sha.bytes

def zero : Sha256 :=
  ⟨List.replicate 32 0, by decide⟩

end Sha256

/-- The hash crate. -/
class Sha256Hash where
  digest : ByteArray -> Sha256

namespace Reference

/-- One address for everything: runs that need no more than some hash. -/
scoped instance sha256Hash : Sha256Hash where
  digest := fun _ => Sha256.zero

end Reference

end CirisPersist
