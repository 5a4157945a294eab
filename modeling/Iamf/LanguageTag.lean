import Iamf.Error

/-! Well-formedness of a language tag, decided on its bytes. -/
namespace Iamf.Wire
open BitString

def isAsciiDigit (byte : UInt8) : Bool := 0x30 ≤ byte && byte ≤ 0x39

def isAsciiUppercase (byte : UInt8) : Bool := 0x41 ≤ byte && byte ≤ 0x5a

def isAsciiAlphabetic (byte : UInt8) : Bool := isAsciiUppercase byte || (0x61 ≤ byte && byte ≤ 0x7a)

def isAsciiAlphanumeric (byte : UInt8) : Bool := isAsciiAlphabetic byte || isAsciiDigit byte

def toAsciiLowercase (byte : UInt8) : UInt8 := if isAsciiUppercase byte then byte + 0x20 else byte

def eqIgnoreAsciiCase (a b : Bytes) : Bool := a.map toAsciiLowercase == b.map toAsciiLowercase

def ascii (text : String) : Bytes := text.toList.map fun char => UInt8.ofNat char.toNat

def irregularGrandfathered : List Bytes :=
  ["en-GB-oed", "i-ami", "i-bnn", "i-default", "i-enochian", "i-hak", "i-klingon", "i-lux", "i-mingo",
    "i-navajo", "i-pwn", "i-tao", "i-tay", "i-tsu", "sgn-BE-FR", "sgn-BE-NL", "sgn-CH-DE"].map ascii

def isAlpha (lo hi : Nat) (subtag : Bytes) : Bool :=
  lo ≤ subtag.length && subtag.length ≤ hi && subtag.all isAsciiAlphabetic

def isDigits (len : Nat) (subtag : Bytes) : Bool := subtag.length == len && subtag.all isAsciiDigit

def isAlphanumeric (lo hi : Nat) (subtag : Bytes) : Bool :=
  lo ≤ subtag.length && subtag.length ≤ hi && subtag.all isAsciiAlphanumeric

def isPrivateUseMarker (subtag : Bytes) : Bool := eqIgnoreAsciiCase subtag [0x78]

def isSingleton (subtag : Bytes) : Bool := isAlphanumeric 1 1 subtag && !isPrivateUseMarker subtag

def isVariant (subtag : Bytes) : Bool :=
  isAlphanumeric 5 8 subtag || (isAlphanumeric 4 4 subtag && subtag.head?.any isAsciiDigit)

def privateUseTail (subtags : List Bytes) : Bool :=
  !subtags.isEmpty && subtags.all (isAlphanumeric 1 8)

def skipUpTo (kind : Bytes → Bool) : Nat → List Bytes → List Bytes
  | n+1, subtag :: rest => if kind subtag then skipUpTo kind n rest else subtag :: rest
  | _, subtags => subtags

mutual

def skipExtensions : List Bytes → Option (List Bytes)
  | [] => some []
  | subtag :: rest => if isSingleton subtag then skipExtension rest else some (subtag :: rest)

def skipExtension : List Bytes → Option (List Bytes)
  | [] => none
  | subtag :: rest => if isAlphanumeric 2 8 subtag then skipExtensionTail rest else none

def skipExtensionTail : List Bytes → Option (List Bytes)
  | [] => some []
  | subtag :: rest =>
    if isAlphanumeric 2 8 subtag then skipExtensionTail rest
    else if isSingleton subtag then skipExtension rest
    else some (subtag :: rest)

end

def languageTail (extlangs : Nat) (subtags : List Bytes) : Bool :=
  let subtags := skipUpTo (isAlpha 3 3) extlangs subtags
  let subtags := skipUpTo (isAlpha 4 4) 1 subtags
  let subtags := skipUpTo (fun subtag => isAlpha 2 2 subtag || isDigits 3 subtag) 1 subtags
  let subtags := subtags.dropWhile isVariant
  match skipExtensions subtags with
  | none => false
  | some [] => true
  | some (marker :: rest) => isPrivateUseMarker marker && privateUseTail rest

def isWellFormedLanguageTag (tag : Bytes) : Bool :=
  if irregularGrandfathered.any (eqIgnoreAsciiCase · tag) then true
  else
    match tag.splitOn 0x2d with
    | [] => false
    | first :: rest =>
      if isPrivateUseMarker first then privateUseTail rest
      else if !isAlpha 2 8 first then false
      else languageTail (if first.length ≤ 3 then 3 else 0) rest

example : isWellFormedLanguageTag (ascii "zh-cmn-Hans-CN") = true := by decide

example : isWellFormedLanguageTag (ascii "en-") = false := by decide

end Iamf.Wire
