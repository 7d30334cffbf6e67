/-! Numbers and fields as text: hexadecimal digits, fixed places, and padding with blanks. -/

namespace FrameFeed.Digits

/-- The hexadecimal digits of a number, in capitals. -/
def hex (n : Nat) : String := String.ofList ((Nat.toDigits 16 n).map Char.toUpper)

/-- The hexadecimal digits of a number, in small letters. -/
def smallHex (n : Nat) : String := String.ofList (Nat.toDigits 16 n)

def padLeft (fill : Char) (width : Nat) (text : String) : String :=
  String.ofList (List.replicate (width - text.length) fill) ++ text

def padRight (width : Nat) (text : String) : String :=
  text ++ String.ofList (List.replicate (width - text.length) ' ')

/-- The quotient rounded to the nearest integer; a half goes to the even neighbour. -/
def roundDiv (num den : Nat) : Nat :=
  let whole := num / den
  let rest := 2 * (num % den)
  if rest < den then whole
  else if den < rest then whole + 1
  else whole + whole % 2

def hundredths (num den : Nat) : String :=
  let cents := roundDiv (100 * num) den
  toString (cents / 100) ++ "." ++ padLeft '0' 2 (toString (cents % 100))

end FrameFeed.Digits
