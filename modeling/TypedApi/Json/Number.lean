import TypedApi.Text.Digit

/-!
Number literals of JSON and the numbers they stand for: integers of 64 bits, and otherwise
doubles, given by their bits.
-/
namespace TypedApi.Json

/-- A number as it is written. `fraction` is empty when there is no decimal point. -/
structure Literal where
  negative : Bool
  whole : List Char
  fraction : List Char
  exponent : Option (Bool × List Char)
deriving DecidableEq, Repr

inductive Number
  | int (n : Int)
  | double (bits : UInt64)
deriving DecidableEq, Repr

namespace Literal

/-- Appends digits to a significand for as long as it fits into 64 bits; the second part holds
the digits for which there was no room. -/
def absorb (n : Nat) : List Char → Nat × List Char
  | [] => (n, [])
  | c :: rest =>
    let m := 10 * n + Text.natural 10 [c]
    if m < UInt64.size then absorb m rest else (n, c :: rest)

def powerOfTen (n : Nat) : Float := Float.ofScientific 1 false n

/-- `f * 10 ^ e` by at most one product or two quotients of doubles; none if it is not finite. -/
def scaled (f : Float) (e : Int) : Option Float :=
  if f == 0 then some f
  else if 308 < e then none
  else if 0 ≤ e then
    let g := f * powerOfTen e.toNat
    if g.isInf then none else some g
  else if -308 ≤ e then some (f / powerOfTen (-e).toNat)
  else
    let g := f / powerOfTen 308
    if -616 ≤ e then some (g / powerOfTen (-e - 308).toNat) else some (g / powerOfTen 308)

def signed (l : Literal) (f : Float) : Number :=
  .double (if l.negative then -f else f).toBits

def exponentValue (l : Literal) : Int :=
  match l.exponent with
  | none => 0
  | some (true, ds) => -(Text.natural 10 ds : Int)
  | some (false, ds) => Text.natural 10 ds

/-- The number a literal stands for: an integer if it has neither fraction nor exponent and fits
into 64 bits (with a sign only if it is negative), else a double. Digits beyond the first 64 bits
of the significand are dropped; a double that is too large is refused. -/
def number? (l : Literal) : Option Number :=
  let (n, dropped) := absorb 0 l.whole
  if l.fraction.isEmpty && l.exponent.isNone && dropped.isEmpty then
    if !l.negative then some (.int n)
    else if 0 < n ∧ Text.fitsInt64 (-n) then some (.int (-n))
    else some (l.signed (Float.ofNat n))
  else
    let (m, lost) := absorb n l.fraction
    let places : Int := l.fraction.length - lost.length
    (scaled (Float.ofNat m) (dropped.length - places + l.exponentValue)).map l.signed

end Literal
end TypedApi.Json
