import Agent24.Library.Outcome
import Agent24.Library.Percent
import Agent24.Library.Text
import Agent24.Library.Utf8

/-! The paths a proxy keeps for the kernel: one judgement of what a request path could mean to a module's server. -/

set_option autoImplicit false
namespace Agent24.Proxy
open Library

def RESERVED_SEGMENT : String := "_a24"

def EXTRA_DECODE_ROUNDS : Nat := 3

inductive PathVerdict where
  | forward
  | reserved
  | rejected
  deriving DecidableEq

abbrev Str := List UInt8

def slash : UInt8 := 47

def backslash : UInt8 := 92

/-- `;`, `?` and `#`, where servers may cut a segment. -/
def cuts (b : UInt8) : Bool := b == 59 || b == 63 || b == 35

/-- `.` and the space, which servers may drop from a segment's end. -/
def trims (b : UInt8) : Bool := b == 46 || b == 32

def segments : Str → List Str
  | [] => [[]]
  | b :: rest =>
    if b = slash then [] :: segments rest
    else
      match segments rest with
      | [] => [[b]]
      | piece :: more => (b :: piece) :: more

/-- What stands before the first `;`, `?` or `#`. -/
def cut (segment : Str) : Str := segment.takeWhile fun b => !cuts b

def strip (segment : Str) : Str := (segment.reverse.dropWhile trims).reverse

def lower (b : UInt8) : UInt8 := if 65 ≤ b ∧ b ≤ 90 then b + 32 else b

def eqIgnoreAsciiCase (a b : Str) : Bool := a.map lower == b.map lower

/-- Whether every `%` is before two hex digits. -/
def escaped : Str → Bool
  | [] => true
  | b :: rest => (b != Percent.sign || (Percent.escape (b :: rest)).isSome) && escaped rest

/-- One round: strict, any other `%` is a rejection; otherwise it stays. -/
def decodePercent (s : Str) (strict : Bool) : Option Str :=
  if strict && !escaped s then none
  else (Utf8.read (Percent.decode s)).map fun _ => Percent.decode s

def isControl (c : Char) : Bool := c.toNat < 32 || (127 ≤ c.toNat && c.toNat < 160)

def structural (c : Char) : Bool := c == '/' || c == '\\' || isControl c

def rejectStructural (s : Str) : Option Unit :=
  match Utf8.read s with
  | some text => if text.toList.any structural then none else some ()
  | none => none

def rounds : Nat → Str → Option Str
  | 0, cur => do
    let next ← decodePercent cur false
    if next = cur then some cur else none
  | n + 1, cur => do
    let next ← decodePercent cur false
    if next = cur then some cur
    else
      rejectStructural next
      rounds n next

/-- The segment with nothing left to decode; none where it cannot be told, or holds a slash or a control character at
any depth. -/
def canonicalSegment (raw : Str) : Option Str :=
  if raw.contains backslash then none
  else do
    let cur ← decodePercent raw true
    rejectStructural cur
    rounds EXTRA_DECODE_ROUNDS cur

def isReserved (segment : Str) : Bool := eqIgnoreAsciiCase (strip (cut segment)) (Bytes.ofText RESERVED_SEGMENT)

def stack : List Str → Option (List Str)
  | [] => some []
  | raw :: rest => do
    let seg ← canonicalSegment raw
    let base := cut seg
    if base ≠ [] ∧ base.all trims then none
    else
      let more ← stack rest
      some (if base = [] then more else seg :: more)

def judge (namespace_ rawPath : String) : PathVerdict :=
  match Text.strip namespace_ rawPath with
  | none => .rejected
  | some rest =>
    if rest ≠ "" ∧ !Text.startsWith "/" rest then .rejected
    else
      match stack (segments (Bytes.ofText rest)) with
      | none => .rejected
      | some [] => .forward
      | some (first :: _) => if isReserved first then .reserved else .forward

end Agent24.Proxy
