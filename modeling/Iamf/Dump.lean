import Iamf.DumpText
import Iamf.ObuBoundaries
import Iamf.SequenceReader

/-! The annotated dump of any byte stream: each OBU with its header, its decoded fields, and its bytes.
It is read OBU by OBU, each on its own, and so without the definitions a Parameter Block needs. -/
namespace Iamf.Wire
open Bits BitString

def specVersion : String := "1.1.0"

def iaCodeText (code : UInt32) : String :=
  String.ofList (([24, 16, 8, 0] : List UInt32).map fun shift => asciiGraphic (code >>> shift).toUInt8)

section

variable (debug : DebugFormat)

section

variable [UlebForm]

end

end

end Iamf.Wire
