import Stencil.Text.Utf8

/-!
# Template bytes

How the bytes of a template become text: strictly as UTF-8, or with a replacement character for what is not UTF-8.
-/

namespace Stencil

/-- How bytes are read as text. -/
inductive Encoding where
  | utf8
  | utf8Lossy
deriving DecidableEq, Repr, Inhabited

namespace Encoding

def decode (encoding : Encoding) (bytes : List UInt8) : Except Text.Utf8.DecodeError String :=
  match encoding with
  | utf8 => Text.Utf8.decode bytes
  | utf8Lossy => .ok (Text.Utf8.decodeLossy bytes)

def name : Encoding → String
  | utf8 => "utf8"
  | utf8Lossy => "utf8-lossy"

end Encoding
end Stencil
