import CirisPersist.Base.Bytes
import CirisPersist.Federation.Blobs.Manifest

/-!
# Sealing under a position

A sealed chunk, and a sealed child of a manifest, is bound to its position: the
associated data names the caller's own data, the stream and the place in it.  The
cipher is another crate's.
-/

namespace CirisPersist
namespace Federation

/-- The bytes of a sealed envelope, with a nonce of the cipher's choice or a given one. -/
class AtRestSeal where
  sealBytes : Dek -> ByteArray -> List UInt8 -> Except BlobError ByteArray
  sealAtNonce : Dek -> List UInt8 -> List UInt8 -> ByteArray -> Except BlobError ByteArray

/-- A domain, the caller's data and the stream with their lengths, and a position. -/
def positionAad (domain : String) (callerAad : Option (List UInt8)) (streamId : String)
    (position : UInt64) : List UInt8 :=
  let caller := callerAad.getD []
  domain.toUTF8.toList ++ u64Be (UInt64.ofNat caller.length) ++ caller ++
    u64Be (UInt64.ofNat streamId.utf8ByteSize) ++ streamId.toUTF8.toList ++ u64Be position

def chunkAadDomain : String := "ciris-persist:chunk:v1"

def chunkAad : Option (List UInt8) -> String -> UInt64 -> List UInt8 :=
  positionAad chunkAadDomain

def manifestChildAadDomain : String := "ciris-persist:manifest-child:v1"

def manifestChildAad : Option (List UInt8) -> String -> UInt64 -> List UInt8 :=
  positionAad manifestChildAadDomain

/-!
## What the associated data binds
-/

theorem positionAad_inj
    {domain : String} {a a' : Option (List UInt8)} {s s' : String} {q q' : UInt64}
    (ha : (a.getD []).length < 2 ^ 64) (ha' : (a'.getD []).length < 2 ^ 64)
    (hs : s.utf8ByteSize < 2 ^ 64) (hs' : s'.utf8ByteSize < 2 ^ 64)
    (h : positionAad domain a s q = positionAad domain a' s' q') :
    a.getD [] = a'.getD [] ∧ s = s' ∧ q = q' := by
  simp only [positionAad, List.append_assoc] at h
  have hfields := List.append_cancel_left h
  rcases lengthPrefixed_append_inj ha ha' hfields with ⟨hcaller, hstream⟩
  rw [← length_toUTF8_toList] at hs hs'
  rw [← length_toUTF8_toList, ← length_toUTF8_toList] at hstream
  rcases lengthPrefixed_append_inj hs hs' hstream with ⟨hid, hposition⟩
  exact ⟨hcaller, toUTF8_toList_inj hid, u64Be_inj hposition⟩

theorem positionAad_ne_of_take
    {domain domain' : String} (n : Nat)
    (hlength : n ≤ domain.utf8ByteSize) (hlength' : n ≤ domain'.utf8ByteSize)
    (hparts : domain.toUTF8.toList.take n ≠ domain'.toUTF8.toList.take n)
    (a a' : Option (List UInt8)) (s s' : String) (q q' : UInt64) :
    positionAad domain a s q ≠ positionAad domain' a' s' q' := by
  intro h
  apply hparts
  have hstart := congrArg (List.take n) h
  simp only [positionAad, List.append_assoc] at hstart
  rw [← length_toUTF8_toList] at hlength hlength'
  rw [List.take_append_of_le_length hlength, List.take_append_of_le_length hlength'] at hstart
  exact hstart

/-- Associated data opens one caller's data, one stream, one position and one role. -/
theorem aad_binds_position
    (a a' : Option (List UInt8)) (s s' : String) (q q' : UInt64)
    (ha : (a.getD []).length < 2 ^ 64) (ha' : (a'.getD []).length < 2 ^ 64)
    (hs : s.utf8ByteSize < 2 ^ 64) (hs' : s'.utf8ByteSize < 2 ^ 64) :
    (chunkAad a s q = chunkAad a' s' q' -> a.getD [] = a'.getD [] ∧ s = s' ∧ q = q') ∧
    (manifestChildAad a s q = manifestChildAad a' s' q' ->
      a.getD [] = a'.getD [] ∧ s = s' ∧ q = q') ∧
    chunkAad a s q ≠ manifestChildAad a' s' q' := by
  constructor
  · intro h
    exact positionAad_inj ha ha' hs hs' h
  constructor
  · intro h
    exact positionAad_inj ha ha' hs hs' h
  · apply positionAad_ne_of_take 15
    · decide
    · decide
    · rw [toList_eq_data, toList_eq_data]
      decide

theorem aad_binds_position_of_empty_caller :
    chunkAad none "s" 0 ≠ chunkAad (some []) "s" 1 := by
  intro h
  have hbound := aad_binds_position none (some []) "s" "s" 0 1
    (by decide) (by decide) (by decide) (by decide)
  exact absurd (hbound.1 h).2.2 (by decide)

end Federation

namespace Reference

scoped instance atRestSeal : Federation.AtRestSeal where
  sealBytes _ text _ := .ok text
  sealAtNonce _ _ _ text := .ok text

end Reference

end CirisPersist
