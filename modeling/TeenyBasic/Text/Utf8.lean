import TeenyBasic.Text.Quoted

/-!
# Strict reading of UTF-8

Bytes become characters only when every sequence is complete, shortest and below U+110000.  The
first sequence that is not is reported with its position and with the bytes of it that could
still have begun a valid one.
-/

namespace TeenyBasic
namespace Text
namespace Utf8

/-- Why a byte sequence encodes no character. -/
inductive Reason
  | invalidStart
  | invalidContinuation
  | unexpectedEnd
  deriving DecidableEq, Repr

/-- A sequence that encodes no character: where it starts, its first byte, and how many bytes
after the first were still acceptable. -/
structure Fault where
  position : Nat
  first : UInt8
  accepted : Nat
  reason : Reason
  deriving DecidableEq, Repr

def Reason.text : Reason → String
  | .invalidStart => "invalid start byte"
  | .invalidContinuation => "invalid continuation byte"
  | .unexpectedEnd => "unexpected end of data"

def Fault.message (fault : Fault) : String :=
  if fault.accepted = 0 then
    "'utf-8' codec can't decode byte 0x" ++ String.ofList (hexDigits 2 fault.first.toNat) ++
      " in position " ++ toString fault.position ++ ": " ++ fault.reason.text
  else
    "'utf-8' codec can't decode bytes in position " ++ toString fault.position ++ "-" ++
      toString (fault.position + fault.accepted) ++ ": " ++ fault.reason.text

/-- What a first byte of several announces: the payload bits it carries, how many bytes follow,
and the range in which the next of them lies. -/
structure Lead where
  payload : Nat
  following : Nat
  least : UInt8
  greatest : UInt8

/-- Reads a first byte above the ASCII range. -/
def lead? (byte : UInt8) : Option Lead :=
  if byte < 0xc2 then none
  else if byte < 0xe0 then some ⟨byte.toNat - 0xc0, 1, 0x80, 0xbf⟩
  else if byte < 0xf0 then
    some ⟨byte.toNat - 0xe0, 2, if byte = 0xe0 then 0xa0 else 0x80,
      if byte = 0xed then 0x9f else 0xbf⟩
  else if byte < 0xf5 then
    some ⟨byte.toNat - 0xf0, 3, if byte = 0xf0 then 0x90 else 0x80,
      if byte = 0xf4 then 0x8f else 0xbf⟩
  else none

/-- The longest run of at most `count` continuation bytes, the first of them in its own range. -/
def continuation (least greatest : UInt8) : Nat → List UInt8 → List UInt8
  | 0, _ => []
  | _, [] => []
  | count + 1, byte :: bytes =>
      if least ≤ byte && byte ≤ greatest then
        byte :: continuation 0x80 0xbf count bytes
      else []

/-- The character of a complete sequence. -/
def assemble (payload : Nat) (bytes : List UInt8) : Char :=
  Char.ofNat (bytes.foldl (fun code byte => code * 64 + (byte.toNat - 0x80)) payload)

def decodeFrom (position : Nat) : List UInt8 → Except Fault (List Char)
  | [] => .ok []
  | byte :: bytes =>
      if byte < 0x80 then
        match decodeFrom (position + 1) bytes with
        | .ok rest => .ok (Char.ofNat byte.toNat :: rest)
        | .error fault => .error fault
      else
        match lead? byte with
        | none => .error ⟨position, byte, 0, .invalidStart⟩
        | some lead =>
            let found := continuation lead.least lead.greatest lead.following bytes
            if found.length = lead.following then
              match decodeFrom (position + 1 + lead.following) (bytes.drop lead.following) with
              | .ok rest => .ok (assemble lead.payload found :: rest)
              | .error fault => .error fault
            else if found.length = bytes.length then
              .error ⟨position, byte, found.length, .unexpectedEnd⟩
            else
              .error ⟨position, byte, found.length, .invalidContinuation⟩
termination_by bytes => bytes.length
decreasing_by
  all_goals simp only [List.length_cons, List.length_drop]; omega

/-- Reads bytes as text, or reports the first sequence that is none. -/
def decode (bytes : List UInt8) : Except Fault String :=
  match decodeFrom 0 bytes with
  | .ok characters => .ok (String.ofList characters)
  | .error fault => .error fault

def encode (text : String) : List UInt8 :=
  text.toUTF8.data.toList

end Utf8
end Text
end TeenyBasic
