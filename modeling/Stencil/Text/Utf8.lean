/-!
# UTF-8

Bytes read as text. A first byte fixes in which ranges the bytes behind it must lie; the bytes up to the first one out of range
are no character. `decode` refuses them and says where they are; `decodeLossy` puts one replacement character in their place.
-/

namespace Stencil.Text.Utf8

/-- Bytes that are no character. -/
structure DecodeError where
  /-- How many bytes come before them. -/
  index : Nat
  /-- How many they are, or none if the bytes end inside a character. -/
  length? : Option Nat
deriving DecidableEq, Repr

def DecodeError.message (e : DecodeError) : String :=
  match e.length? with
  | some length => s!"invalid utf-8 sequence of {length} bytes from index {e.index}"
  | none => s!"incomplete utf-8 byte sequence from index {e.index}"

/-- The ranges of the bytes behind a first byte, or none if no character starts with it. -/
def followers? (b : UInt8) : Option (List (UInt8 × UInt8)) :=
  if b < 0x80 then some []
  else if b < 0xC2 then none
  else if b < 0xE0 then some [(0x80, 0xBF)]
  else if b < 0xF0 then
    some [(if b = 0xE0 then 0xA0 else 0x80, if b = 0xED then 0x9F else 0xBF), (0x80, 0xBF)]
  else if b < 0xF5 then
    some [(if b = 0xF0 then 0x90 else 0x80, if b = 0xF4 then 0x8F else 0xBF), (0x80, 0xBF), (0x80, 0xBF)]
  else none

/-- The part of the code point that a first byte holds. -/
def leadValue (b : UInt8) : Nat :=
  if b < 0x80 then b.toNat else if b < 0xE0 then b.toNat % 32 else if b < 0xF0 then b.toNat % 16 else b.toNat % 8

/-- Reads the bytes behind a first byte into the code point begun with `code`, or stops in front of the first that is out of
range. -/
def follow : List (UInt8 × UInt8) → Nat → List UInt8 → Except (List UInt8) (Nat × List UInt8)
  | [], code, s => .ok (code, s)
  | _ :: _, _, [] => .error []
  | (low, high) :: ranges, code, b :: s =>
    if low ≤ b ∧ b ≤ high then follow ranges (code * 64 + b.toNat % 64) s else .error (b :: s)

/-- What stands at the front of some bytes. -/
inductive Front where
  | char (c : Char) (rest : List UInt8)
  | invalid (rest : List UInt8)
  | incomplete

def front (b : UInt8) (s : List UInt8) : Front :=
  match followers? b with
  | none => .invalid s
  | some ranges =>
    match follow ranges (leadValue b) s with
    | .ok (code, rest) => .char (Char.ofNat code) rest
    | .error [] => .incomplete
    | .error rest => .invalid rest

def Front.rest : Front → List UInt8
  | char _ rest | invalid rest => rest
  | incomplete => []

theorem length_follow_le {ranges : List (UInt8 × UInt8)} {code : Nat} {s : List UInt8} :
    (match follow ranges code s with
      | .ok (_, rest) => rest
      | .error rest => rest).length ≤ s.length := by
  fun_induction follow ranges code s with
  | case1 => simp
  | case2 => simp
  | case3 low high ranges code b s _ ih => exact Nat.le_succ_of_le ih
  | case4 => simp

theorem length_front_rest_le (b : UInt8) (s : List UInt8) : (front b s).rest.length ≤ s.length := by
  unfold front
  split
  · simp [Front.rest]
  · next ranges _ =>
    have h := @length_follow_le ranges (leadValue b) s
    split <;> simp_all [Front.rest]

def decodeFrom (index : Nat) : List UInt8 → Except DecodeError (List Char)
  | [] => .ok []
  | b :: s =>
    match _front : front b s with
    | .char c rest => (decodeFrom (index + (s.length + 1 - rest.length)) rest).map (c :: ·)
    | .invalid rest => .error ⟨index, some (s.length + 1 - rest.length)⟩
    | .incomplete => .error ⟨index, none⟩
termination_by s => s.length
decreasing_by
  have := length_front_rest_le b s
  simp_all only [Front.rest, List.length_cons]
  omega

def decode (bytes : List UInt8) : Except DecodeError String := (decodeFrom 0 bytes).map String.ofList

/-- The characters of the bytes, with a replacement character for each stretch that is none. -/
def replacing : List UInt8 → List Char
  | [] => []
  | b :: s =>
    match _front : front b s with
    | .char c rest => c :: replacing rest
    | .invalid rest => '\uFFFD' :: replacing rest
    | .incomplete => ['\uFFFD']
termination_by s => s.length
decreasing_by
  all_goals
    have := length_front_rest_le b s
    simp_all only [Front.rest, List.length_cons]
    omega

/-- The text of the bytes, with a replacement character for each stretch that is none. -/
def decodeLossy (bytes : List UInt8) : String := String.ofList (replacing bytes)

end Stencil.Text.Utf8
