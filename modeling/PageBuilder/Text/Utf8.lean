/-!
# Reading UTF-8

Octets are read one at a time.  Inside a character the reader knows how many octets are owed and
the range the next one must lie in, so that overlong forms, surrogates and code points beyond
U+10FFFF are refused at the first octet that rules the character out.
-/

namespace PageBuilder.Text.Utf8

/-- Why octets are no UTF-8. -/
inductive Cause
  /-- An octet that starts no character. -/
  | start
  /-- An octet that cannot follow inside a character. -/
  | continuation
  /-- The octets end inside a character. -/
  | truncated
deriving DecidableEq, Repr

/-- The first octet that cannot be read, the offset where its character starts, and the number of
octets of that character read so far. -/
structure Fault where
  cause : Cause
  lead : UInt8
  start : Nat
  count : Nat
deriving DecidableEq, Repr

/-- A character being read. -/
structure Pending where
  start : Nat
  lead : UInt8
  /-- Octets read, the first included. -/
  taken : Nat
  /-- Octets still owed. -/
  owed : Nat
  /-- Range of the next octet. -/
  low : Nat
  high : Nat
  code : Nat
deriving DecidableEq, Repr

/-- What a first octet announces: a character of its own, a longer one, or nothing. -/
def first (position : Nat) (octet : UInt8) : Except Fault (Char ⊕ Pending) :=
  let b := octet.toNat
  let longer (owed low high bits : Nat) : Except Fault (Char ⊕ Pending) :=
    .ok (.inr ⟨position, octet, 1, owed, low, high, bits⟩)
  if b < 0x80 then .ok (.inl (Char.ofNat b))
  else if b < 0xc2 then .error ⟨.start, octet, position, 1⟩
  else if b < 0xe0 then longer 1 0x80 0xbf (b - 0xc0)
  else if b = 0xe0 then longer 2 0xa0 0xbf 0
  else if b = 0xed then longer 2 0x80 0x9f (b - 0xe0)
  else if b < 0xf0 then longer 2 0x80 0xbf (b - 0xe0)
  else if b = 0xf0 then longer 3 0x90 0xbf 0
  else if b < 0xf4 then longer 3 0x80 0xbf (b - 0xf0)
  else if b = 0xf4 then longer 3 0x80 0x8f (b - 0xf0)
  else .error ⟨.start, octet, position, 1⟩

/-- Reads octets from an offset, possibly in the middle of a character. -/
def decodeFrom (position : Nat) : Option Pending → List UInt8 → Except Fault (List Char)
  | none, [] => .ok []
  | some p, [] => .error ⟨.truncated, p.lead, p.start, p.taken⟩
  | none, octet :: rest =>
    match first position octet with
    | .error fault => .error fault
    | .ok (.inl c) => (c :: ·) <$> decodeFrom (position + 1) none rest
    | .ok (.inr p) => decodeFrom (position + 1) (some p) rest
  | some p, octet :: rest =>
    if p.low ≤ octet.toNat && octet.toNat ≤ p.high then
      let code := p.code * 64 + (octet.toNat - 0x80)
      if p.owed ≤ 1 then
        (Char.ofNat code :: ·) <$> decodeFrom (position + 1) none rest
      else
        decodeFrom (position + 1)
          (some { p with taken := p.taken + 1, owed := p.owed - 1, low := 0x80, high := 0xbf,
                         code := code }) rest
    else .error ⟨.continuation, p.lead, p.start, p.taken⟩

def decode (octets : List UInt8) : Except Fault (List Char) :=
  decodeFrom 0 none octets

def encode (s : String) : List UInt8 :=
  s.toUTF8.toList

end PageBuilder.Text.Utf8
