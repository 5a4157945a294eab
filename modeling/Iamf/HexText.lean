import Mathlib.Data.Nat.Digits.Lemmas
import Mathlib.Tactic.IntervalCases

/-! Numbers and bytes in hexadecimal digits, and read back from them. -/
namespace Iamf.HexText

def hexText (width n : Nat) : List Char := ((Nat.digits 16 n).map Nat.digitChar).reverse.leftpad width '0'

def hexBytes (bytes : List UInt8) : List Char := [' '].intercalate (bytes.map fun byte => hexText 2 byte.toNat)

def hexValue (c : Char) : Option Nat :=
  if '0' ≤ c ∧ c ≤ '9' then some (c.toNat - '0'.toNat)
  else if 'a' ≤ c ∧ c ≤ 'f' then some (10 + (c.toNat - 'a'.toNat))
  else none

def ofHex (text : List Char) : Nat := text.foldl (fun n c => 16 * n + (hexValue c).getD 0) 0

def readHexBytes : List Char → List UInt8
  | high :: low :: behind =>
    match hexValue high, hexValue low with
    | some x, some y => UInt8.ofNat (16 * x + y) :: readHexBytes behind.tail
    | _, _ => []
  | _ => []
termination_by text => text.length
decreasing_by simp; omega

end Iamf.HexText
