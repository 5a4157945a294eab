import Iamf.AudioFrame
import Iamf.HexText
import Iamf.MixPresentation

/-! The lines of a dump and the text of each: what a reviewer compares when an output changes. -/
namespace Iamf.Wire
open Bits BitString HexText

def hexBlockMax : Nat := 256

inductive DumpLine where
  | plain (text : String)
  | obu (offset : Nat) (obuType : ObuType) (obuSize : UInt32) (length : Nat)
  | unparsable (offset length : Nat)
  | field (offset : Nat) (name value : String)
  | row (offset : Nat) (chunk : Bytes)
  | elided (offset count : Nat)
  deriving DecidableEq

def hex (width n : Nat) : String := String.ofList (hexText width n)

def padded (width : Nat) (text : String) : String := String.ofList (text.toList.rightpad width ' ')

def asciiGraphic (byte : UInt8) : Char :=
  if 0x21 ≤ byte ∧ byte ≤ 0x7e then Char.ofNat byte.toNat else '.'

def typeName (obuType : ObuType) : String :=
  match obuType with
  | .codecConfig => "CodecConfig"
  | .audioElement => "AudioElement"
  | .mixPresentation => "MixPresentation"
  | .parameterBlock => "ParameterBlock"
  | .temporalDelimiter => "TemporalDelimiter"
  | .audioFrame => "AudioFrame(explicit id)"
  | .iaSequenceHeader => "IaSequenceHeader"
  | .reserved value => s!"Reserved({value})"
  | other =>
    match substreamIdFor other with
    | some id => s!"AudioFrame(substream {id})"
    | none => s!"Unknown({other.value})"

def DumpLine.text : DumpLine → String
  | plain text => text ++ "\n"
  | obu offset obuType obuSize length => hex 8 offset ++ "  OBU " ++ padded 28 (typeName obuType) ++
      "  type=" ++ toString obuType.value ++ " obu_size=" ++ toString obuSize ++ " len=" ++ toString length ++ "\n"
  | unparsable offset length => hex 8 offset ++ "  <unparsable OBU header, " ++ toString length ++ " bytes>\n"
  | field offset name value => hex 8 offset ++ "  " ++ padded 32 name ++ "  " ++ value ++ "\n"
  | row offset chunk => hex 8 offset ++ "  | " ++ padded 47 (String.ofList (hexBytes chunk)) ++ "  |" ++
      String.ofList (chunk.map asciiGraphic) ++ "|\n"
  | elided offset count => hex 8 offset ++ "  | … " ++ toString count ++ " further bytes elided at " ++
      toString hexBlockMax ++ "\n"

def field {V : Type} [ToString V] (offset : Nat) (name : String) (value : V) : DumpLine :=
  .field offset name (toString value)

def q7_8 (raw : Int16) : String :=
  let value := raw.toInt
  let magnitude := value.natAbs
  let whole := magnitude / 256
  let fraction := magnitude % 256
  -- eight fractional bits: at most eight places
  let scaled := fraction * 390625
  let sign := if value < 0 then "-" else ""
  sign ++ toString whole ++ "." ++ String.ofList ((toString scaled).toList.leftpad 8 '0') ++ s!" ({raw})"

def readRow (text : String) : Option (Nat × Bytes) :=
  match text.toList.dropWhile fun c => (hexValue c).isSome with
  | ' ' :: ' ' :: '|' :: ' ' :: behind =>
    some (ofHex (text.toList.takeWhile fun c => (hexValue c).isSome), readHexBytes behind)
  | _ => none

def shownBytes (text : String) : List (UInt8 × Nat) :=
  match readRow text with
  | some (offset, chunk) => chunk.zipIdx offset
  | none => []

def DumpLine.elides : DumpLine → List Nat
  | .elided offset count => List.range' offset count
  | _ => []

theorem decimalText (sign behind : String) (whole scaled : Nat) :
    (sign ++ toString whole ++ "." ++ String.ofList ((toString scaled).toList.leftpad 8 '0') ++ behind).toList =
      sign.toList ++ (Nat.toDigits 10 whole ++ '.' :: ((Nat.toDigits 10 scaled).leftpad 8 '0' ++ behind.toList)) := by
  simp

theorem q7_8Exact (raw : Int16) : ∃ whole places : List Char, (q7_8 raw).toList =
      (if raw.toInt < 0 then "-" else "").toList ++ (whole ++ '.' :: (places ++ (s!" ({raw})").toList)) ∧
    whole ≠ [] ∧ places.length = 8 ∧ (∀ c ∈ whole ++ places, c.isDigit = true) ∧
    256 * Nat.ofDigitChars 10 (whole ++ places) 0 = raw.toInt.natAbs * 10 ^ 8 := by
  let scaled := raw.toInt.natAbs % 256 * 390625
  have small : (Nat.toDigits 10 scaled).length ≤ 8 := (Nat.length_toDigits_le_iff (by omega) (by omega)).mpr (by omega)
  have eight : ((Nat.toDigits 10 scaled).leftpad 8 '0').length = 8 := by
    rw [List.length_leftpad]
    omega
  have digits (n : Nat) : ∀ c ∈ Nat.toDigits 10 n, c.isDigit = true :=
    fun c among => Nat.isDigit_of_mem_toDigits (by decide) (by decide) among
  have padding : ∀ c ∈ List.replicate (8 - (Nat.toDigits 10 scaled).length) '0', c.isDigit = true := by
    intro c among
    rw [List.eq_of_mem_replicate among]
    rfl
  have read : Nat.ofDigitChars 10 ((Nat.toDigits 10 scaled).leftpad 8 '0') 0 = scaled := by
    rw [List.leftpad, Nat.ofDigitChars_append, Nat.ofDigitChars_replicate_zero, Nat.mul_zero,
      Nat.ofDigitChars_ten_toDigits]
  refine ⟨Nat.toDigits 10 (raw.toInt.natAbs / 256), _, decimalText _ _ _ scaled, Nat.toDigits_ne_nil, eight,
    List.forall_mem_append.mpr ⟨digits _, List.forall_mem_append.mpr ⟨padding, digits scaled⟩⟩, ?_⟩
  rw [Nat.ofDigitChars_append, Nat.ofDigitChars_ten_toDigits, Nat.ofDigitChars_eq_ofDigitChars_zero, eight, read]
  omega

end Iamf.Wire
