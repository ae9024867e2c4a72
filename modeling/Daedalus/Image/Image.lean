import Daedalus.Image.Record
import Daedalus.Script

/-! # Script images

The form of a compiled script as a file: a version byte, the number of symbols, their order by name,
their records, the length of the code and the code. The order is not needed to read the script, and
what follows the code is ignored. -/

namespace Daedalus

namespace Script

/-- Reads the parts of a script from the front of its image. -/
def scanParts : Scan (List Symbol × List UInt8) := do
  let _ ← Scan.byte
  let count ← Scan.word
  let _ ← Scan.bytes (4 * count.toNat)
  let symbols ← Scan.times Symbol.scan count.toNat
  let size ← Scan.word
  let code ← Scan.bytes size.toNat
  pure (symbols, code)

/-- The script in an image. -/
def ofImage (image : List UInt8) : Except Fault Script :=
  match scanParts image with
  | .ok ((symbols, code), _) => .ok (ofParts code.toArray symbols)
  | .error fault => .error fault

/-- The image of a list of symbols and a code segment, with a version byte and an order of the
symbols. -/
def imageOf (version : UInt8) (order : List UInt32) (symbols : List Symbol)
    (code : List UInt8) : List UInt8 :=
  version :: (Word.toBytes (UInt32.ofNat symbols.length) ++ order.flatMap Word.toBytes ++
    symbols.flatMap Symbol.recordBytes ++ Word.toBytes (UInt32.ofNat code.length) ++ code)

end Script

end Daedalus
