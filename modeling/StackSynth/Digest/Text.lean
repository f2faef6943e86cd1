/-
This file holds the three texts that stand for digests: the full one that identifies content, the
short one that identifies a manifest, and the eight capital digits that end a generated name.
-/

import StackSynth.Digest.Sha256

namespace StackSynth

/-- The text that identifies content: the sixty-four digits of its digest. -/
abbrev ContentHash := String

/-- The identity of bytes. -/
def contentHash (bytes : ByteArray) : ContentHash :=
  String.ofList (Sha256.hexDigits (Sha256.digest bytes))

/-- The identity of the bytes of a text. -/
def textHash (text : String) : ContentHash := contentHash text.toUTF8

/-- The number of digits that identify a manifest. -/
def manifestHashLength : Nat := 20

/-- The first digits of the digest of a text. -/
def shortTextHash (text : String) : String :=
  String.ofList ((Sha256.hexDigits (Sha256.digest text.toUTF8)).take manifestHashLength)

/-- The number of digits at the end of a generated name. -/
def suffixLength : Nat := 8

/-- The first digits of the digest of a text, in capitals. Generated names end in them, so that
names of different paths differ where their readable parts agree. -/
def idSuffix (text : String) : String :=
  String.ofList
    (((Sha256.hexDigits (Sha256.digest text.toUTF8)).take suffixLength).map Char.toUpper)

/-- A suffix always has its full length. -/
theorem length_idSuffix (text : String) : (idSuffix text).length = suffixLength := by
  simp [idSuffix, suffixLength, Sha256.length_hexDigits]

end StackSynth
