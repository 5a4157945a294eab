import Iamf.BoundaryGrammar
import Iamf.Dump

/-! What the rows of a dump say about the file: each byte they show stands where they say, and what they
do not show is counted. -/
namespace Iamf.Wire
open Bits BitString HexText

variable (debug : DebugFormat)

section

variable [UlebForm]

end

def DumpLine.places (line : DumpLine) : List Nat := (shownBytes line.text).map Prod.snd ++ line.elides

def DumpLine.Frames (line : DumpLine) (place : Nat) : Prop :=
  ∃ offset obuType obuSize length, line = .obu offset obuType obuSize length ∧ obuType.isAudioFrame = true ∧
    offset ≤ place ∧ place < offset + length

/-- What is shown stands at its place, no place is answered for twice, and each is answered for or in a frame. -/
structure Exact (offset : Nat) (bytes : Bytes) (lines : List DumpLine) : Prop where
  shown : (lines.flatMap fun line => shownBytes line.text).Sublist (bytes.zipIdx offset)
  placed : (lines.flatMap DumpLine.places).Sublist (List.range' offset bytes.length)
  covers : ∀ place, offset ≤ place → place < offset + bytes.length →
    place ∈ lines.flatMap DumpLine.places ∨ ∃ line ∈ lines, line.Frames place

end Iamf.Wire
