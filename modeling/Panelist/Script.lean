import Panelist.Json
import Panelist.Binary64

/-! Values of a script and how `JSON.stringify` writes text: only quotes, backslashes and
control characters are escaped. Strings are well formed, so no surrogate stands alone. -/
namespace Script
open Serial

abbrev Number := Binary64.Value

inductive Value where
  | undefined
  | null
  | bool (b : Bool)
  | number (n : Number)
  | string (s : String)
  | array (items : List Value)
  | object (fields : List (String × Value))

/-! ### Text -/

/-- `QuoteJSONString`, one code point. -/
def escapeChar (c : Char) : List Char :=
  if c = '"' then ['\\', '"']
  else if c = '\\' then ['\\', '\\']
  else if c = '\n' then ['\\', 'n']
  else if c = '\r' then ['\\', 'r']
  else if c = '\t' then ['\\', 't']
  else if c.toNat = 8 then ['\\', 'b']
  else if c.toNat = 12 then ['\\', 'f']
  else if c.toNat < 32 then unicodeEscape c.toNat
  else [c]

/-- `JSON.stringify` of a string. -/
def quote (s : String) : List Char := '"' :: s.toList.flatMap escapeChar ++ ['"']

/-- The UTF-16 code units of a character. -/
def codeUnits (c : Char) : List ℕ :=
  if c.toNat < 0x10000 then [c.toNat]
  else [0xD800 + (c.toNat - 0x10000) / 0x400, 0xDC00 + (c.toNat - 0x10000) % 0x400]

/-- The order of `Array.prototype.sort` without a comparator. -/
def before (a b : String) : Prop := a.toList.flatMap codeUnits ≤ b.toList.flatMap codeUnits

instance : DecidableRel before := fun _ _ => inferInstanceAs (Decidable (_ ≤ _))

/-- `String(n)`: whole numbers in decimal; how other numbers are written is a parameter. -/
def numberText (other : ℚ → List Char) : Number → List Char
  | .finite q _ => if q.den = 1 ∧ |q| < 10 ^ 21 then (toString q.num).toList else other q
  | .negZero => ['0']
  | .infinite negative => if negative then "-Infinity".toList else "Infinity".toList
  | .nan => "NaN".toList

/-- `Number.isInteger`. -/
def isInteger (n : Number) : Bool := n.toRat.any (fun q => q.den = 1)

/-- `x <= y`. -/
def lessEq (x y : Number) : Bool :=
  match x.toRat, y.toRat with
  | some p, some q => p ≤ q
  | some _, none => y = .infinite false
  | none, some _ => x = .infinite true
  | none, none => x = y ∧ x ≠ .nan ∨ x = .infinite true ∧ y = .infinite false

/-- `Math.abs`. -/
def absolute (n : Number) : Number := if n.isNegative then n.neg else n

/-- `Math.max(...xs)` of numbers other than the negative zero, 0 when there are none. -/
def maximum : List Number → Number
  | [] => .zero false
  | x :: xs => xs.foldl (fun m y =>
      if m = .nan ∨ y = .nan then .nan else if lessEq m y then y else m) x

/-! ### Objects -/

/-- The functions every object inherits from `Object.prototype`, which is `__proto__`. -/
def inherited : List String :=
  ["constructor", "__defineGetter__", "__defineSetter__", "hasOwnProperty", "__lookupGetter__",
    "__lookupSetter__", "isPrototypeOf", "propertyIsEnumerable", "toString", "valueOf",
    "toLocaleString"]

/-- `key in o`. -/
def hasMember {α : Type} (o : List (String × α)) (key : String) : Bool :=
  (o.lookup key).isSome || inherited.contains key || key = "__proto__"

/-- `o[key] ?? 0` for an object of numbers; an inherited function is written like `undefined`. -/
def memberOr0 (o : List (String × ℚ)) (key : String) : Value :=
  match o.lookup key with
  | some q => .number (.round q)
  | none =>
    if key = "__proto__" then .object []
    else if inherited.contains key then .undefined
    else .number (.zero false)

/-- A value as an operand of an arithmetic operator, when only numbers convert. -/
def Value.toNumber : Value → Number
  | .number n => n
  | _ => .nan

example : quote "é\u007f\n" = "\"é\u007f\\n\"".toList := by decide

end Script
