import Mathlib

/-! JSON values and `json.dumps(…, sort_keys=True, separators=(",", ":"))` with
its default `ensure_ascii`. How a float is written is a parameter; the negative zero is a value
of its own. -/
namespace Serial

inductive Json where
  | null
  | bool (b : Bool)
  | int (n : ℤ)
  | float (q : ℚ)
  | negZero
  | str (s : String)
  | arr (items : List Json)
  | obj (fields : List (String × Json))

/-- Numerals consist of the digits of their base. -/
theorem exists_digitChar {b n : ℕ} (hb : 1 < b) {c : Char} (h : c ∈ Nat.toDigits b n) :
    ∃ d < b, c = Nat.digitChar d := by
  induction n using Nat.strongRecOn with
  | ind n ih =>
    by_cases hn : n < b
    · rw [Nat.toDigits_of_lt_base hn, List.mem_singleton] at h
      exact ⟨n, hn, h⟩
    · rw [Nat.toDigits_of_base_le hb (by omega), List.mem_append, List.mem_singleton] at h
      rcases h with h | h
      · exact ih (n / b) (Nat.div_lt_self (by omega) hb) h
      · exact ⟨n % b, Nat.mod_lt n (by omega), h⟩

/-- `\uXXXX`. -/
def unicodeEscape (n : ℕ) : List Char := '\\' :: 'u' :: (Nat.toDigits 16 n).leftpad 4 '0'

/-- `ESCAPE_ASCII`: short escapes, printable ASCII as it is, and UTF-16 units
for the rest. -/
def escapeChar (c : Char) : List Char :=
  if c = '"' then ['\\', '"']
  else if c = '\\' then ['\\', '\\']
  else if c = '\n' then ['\\', 'n']
  else if c = '\r' then ['\\', 'r']
  else if c = '\t' then ['\\', 't']
  else if c.toNat = 8 then ['\\', 'b']
  else if c.toNat = 12 then ['\\', 'f']
  else if 32 ≤ c.toNat ∧ c.toNat ≤ 126 then [c]
  else if c.toNat < 65536 then unicodeEscape c.toNat
  else
    let n := c.toNat - 65536
    unicodeEscape (55296 + n / 1024) ++ unicodeEscape (56320 + n % 1024)

def quote (s : String) : List Char := '"' :: s.toList.flatMap escapeChar ++ ['"']

/-- `sep.join(items)` for a one-character separator. -/
def joinWith (sep : Char) : List (List Char) → List Char
  | [] => []
  | [x] => x
  | x :: xs => x ++ sep :: joinWith sep xs

/-- `sort_keys`: by code points. -/
def sortFields {α : Type} (fields : List (String × α)) : List (String × α) :=
  fields.insertionSort (fun a b => a.1.toList ≤ b.1.toList)

def member (f : String × List Char) : List Char := quote f.1 ++ ':' :: f.2

section Dumps
variable (floatRepr : ℚ → List Char)

mutual

def dumps : Json → List Char
  | .null => "null".toList
  | .bool b => if b then "true".toList else "false".toList
  | .int n => (toString n).toList
  | .float q => floatRepr q
  | .negZero => ['-', '0', '.', '0']
  | .str s => quote s
  | .arr items => '[' :: joinWith ',' (dumpsItems items) ++ [']']
  | .obj fields => '{' :: joinWith ',' ((sortFields (dumpsFields fields)).map member) ++ ['}']

def dumpsItems : List Json → List (List Char)
  | [] => []
  | j :: js => dumps j :: dumpsItems js

def dumpsFields : List (String × Json) → List (String × List Char)
  | [] => []
  | (k, j) :: fs => (k, dumps j) :: dumpsFields fs

end

end Dumps

/-- The decimals of a fraction, at most so many and at least one. -/
def decimals : ℕ → ℚ → List Char
  | 0, _ => []
  | places + 1, r =>
    let d := (10 * r).floor
    (toString d).toList ++ if 10 * r = d then [] else decimals places (10 * r - d)

/-- `repr` of a float that is written out with at most 16 decimals. -/
def decimalRepr (q : ℚ) : List Char :=
  (toString (if q < 0 then -(-q).floor else q.floor)).toList ++ '.' ::
    decimals 16 (|q| - |q|.floor)

example : decimalRepr (9 / 2) = "4.5".toList ∧ decimalRepr 4 = "4.0".toList := by decide +kernel

example : dumps (fun _ => []) (.obj [("b", .int 1), ("a", .str "é\n")]) =
    "\x7b\"a\":\"\\u00e9\\n\",\"b\":1\x7d".toList := by decide +kernel

end Serial
