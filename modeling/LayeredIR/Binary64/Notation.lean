import LayeredIR.Binary64.Shortest

/-! How numbers are written: `plain` for reading by people, without an exponent and without a
fraction that is zero, and `tagged` for documents, where every float shows a point or an
exponent. -/
namespace LayeredIR.Binary64

private def zeros (n : Nat) : String := String.ofList (List.replicate n '0')

private def signText (x : Binary64) : String := if x.isNegative then "-" else ""

private def positional (digits : String) (scale : Int) (wholeEnd : String) : String :=
  let count : Int := digits.length
  if 0 ≤ scale then digits ++ zeros scale.toNat ++ wholeEnd
  else if -scale < count then
    let whole := (count + scale).toNat
    (digits.take whole).toString ++ "." ++ (digits.drop whole).toString
  else "0." ++ zeros (-scale - count).toNat ++ digits

def plain (x : Binary64) : String :=
  if x.isNaN then "NaN"
  else if x.isInfinite then signText x ++ "inf"
  else if x.isZero then signText x ++ "0"
  else
    let d := x.shortest .up
    signText x ++ positional (toString d.coefficient) d.scale ""

def taggedPlainFrom : Int := -5
def taggedPlainBelow : Int := 16

def tagged (x : Binary64) : String :=
  if x.isZero then signText x ++ "0.0"
  else
    let d := x.shortest .toEven
    let digits := toString d.coefficient
    let leading := d.scale + digits.length - 1
    if taggedPlainFrom ≤ leading ∧ leading < taggedPlainBelow then
      signText x ++ positional digits d.scale ".0"
    else
      let fraction := (digits.drop 1).toString
      let point := if fraction.isEmpty then "" else "."
      let mark := if leading < 0 then "e-" else "e+"
      signText x ++ (digits.take 1).toString ++ point ++ fraction ++ mark ++ toString leading.natAbs

end LayeredIR.Binary64
