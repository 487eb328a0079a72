import Mathlib.Tactic.Common

/-!
# JSON as Python writes and reads it

`dumps` is `json.dumps(value, ensure_ascii=False)` and `loads` is `json.loads`,
on lists of characters. A float is the text that it prints as. A string here
holds whole characters only, so an escape that stands for half a surrogate
pair, which Python keeps, is refused.

Reading has fuel, one unit for each nested value or member; a text needs at
most its own length.
-/

inductive Json where
  | null
  | bool (b : Bool)
  | int (i : Int)
  | float (text : String)
  | str (s : String)
  | arr (vs : List Json)
  | obj (kvs : List (String × Json))
  deriving Repr, Inhabited

namespace Json

/-! ## Writing -/

def escapeChar (c : Char) : List Char :=
  if c = '"' then ['\\', '"']
  else if c = '\\' then ['\\', '\\']
  else if c = '\n' then ['\\', 'n']
  else if c = '\r' then ['\\', 'r']
  else if c = '\t' then ['\\', 't']
  else if c = '\x0c' then ['\\', 'f']
  else if c = '\x08' then ['\\', 'b']
  else if c.toNat < 0x20 then
    ['\\', 'u', '0', '0', Nat.digitChar (c.toNat / 16), Nat.digitChar (c.toNat % 16)]
  else [c]

def renderString (s : String) : List Char := '"' :: s.toList.flatMap escapeChar ++ ['"']

def renderInt : Int → List Char
  | .ofNat n => Nat.toDigits 10 n
  | .negSucc n => '-' :: Nat.toDigits 10 (n + 1)

mutual

def render : Json → List Char
  | .null => ['n', 'u', 'l', 'l']
  | .bool true => ['t', 'r', 'u', 'e']
  | .bool false => ['f', 'a', 'l', 's', 'e']
  | .int i => renderInt i
  | .float text => text.toList
  | .str s => renderString s
  | .arr vs => '[' :: renderElems vs ++ [']']
  | .obj kvs => '{' :: renderMembers kvs ++ ['}']

def renderElems : List Json → List Char
  | [] => []
  | [v] => render v
  | v :: vs => render v ++ ',' :: ' ' :: renderElems vs

def renderMembers : List (String × Json) → List Char
  | [] => []
  | [(k, v)] => renderString k ++ ':' :: ' ' :: render v
  | (k, v) :: kvs => renderString k ++ ':' :: ' ' :: (render v ++ ',' :: ' ' :: renderMembers kvs)

end

def dumps (v : Json) : String := String.ofList (render v)

/-! ## Reading -/

def isWhitespace (c : Char) : Bool := c = ' ' || c = '\t' || c = '\n' || c = '\r'

def skipWs (cs : List Char) : List Char := cs.dropWhile isWhitespace

def hexVal (c : Char) : Option Nat :=
  if '0' ≤ c ∧ c ≤ '9' then some (c.toNat - 48)
  else if 'a' ≤ c ∧ c ≤ 'f' then some (c.toNat - 87)
  else if 'A' ≤ c ∧ c ≤ 'F' then some (c.toNat - 55)
  else none

/-- The four hex digits after `\u`. -/
def codeUnit (a b c d : Char) : Option Nat := do
  return ((((← hexVal a) * 16 + (← hexVal b)) * 16 + (← hexVal c)) * 16 + (← hexVal d))

def unescape (e : Char) : Option Char :=
  if e = '"' then some '"'
  else if e = '\\' then some '\\'
  else if e = '/' then some '/'
  else if e = 'b' then some '\x08'
  else if e = 'f' then some '\x0c'
  else if e = 'n' then some '\n'
  else if e = 'r' then some '\r'
  else if e = 't' then some '\t'
  else none

def consChar (c : Char) (p : List Char × List Char) : List Char × List Char := (c :: p.1, p.2)

/-- A string after its opening quote, and what comes after the closing one. -/
def scanString : List Char → Option (List Char × List Char)
  | [] => none
  | '"' :: rest => some ([], rest)
  | '\\' :: 'u' :: a :: b :: c :: d :: rest =>
    match codeUnit a b c d with
    | none => none
    | some n =>
      if 0xd800 ≤ n ∧ n < 0xdc00 then
        match rest with
        | '\\' :: 'u' :: e :: f :: g :: h :: rest =>
          match codeUnit e f g h with
          | none => none
          | some m =>
            if 0xdc00 ≤ m ∧ m < 0xe000 then
              (scanString rest).map (consChar (Char.ofNat (0x10000 + (n - 0xd800) * 0x400 + (m - 0xdc00))))
            else none
        | _ => none
      else if 0xdc00 ≤ n ∧ n < 0xe000 then none
      else (scanString rest).map (consChar (Char.ofNat n))
  | '\\' :: e :: rest =>
    match unescape e with
    | none => none
    | some c => (scanString rest).map (consChar c)
  | c :: rest => if c.toNat < 0x20 then none else (scanString rest).map (consChar c)

/-- `(0|[1-9][0-9]*)`, and what comes after it. -/
def scanInt : List Char → Option (List Char × List Char)
  | [] => none
  | c :: rest =>
    if c = '0' then some (['0'], rest)
    else if c.isDigit then some (c :: rest.takeWhile Char.isDigit, rest.dropWhile Char.isDigit)
    else none

/-- `(\.[0-9]+)?`. -/
def scanFrac : List Char → List Char × List Char
  | [] => ([], [])
  | c :: rest =>
    if c = '.' then
      match rest.takeWhile Char.isDigit with
      | [] => ([], c :: rest)
      | d :: ds => (c :: d :: ds, rest.dropWhile Char.isDigit)
    else ([], c :: rest)

def scanSign : List Char → List Char × List Char
  | [] => ([], [])
  | c :: rest => if c = '+' || c = '-' then ([c], rest) else ([], c :: rest)

/-- `([eE][-+]?[0-9]+)?`. -/
def scanExp : List Char → List Char × List Char
  | [] => ([], [])
  | c :: rest =>
    if c = 'e' || c = 'E' then
      match (scanSign rest).2.takeWhile Char.isDigit with
      | [] => ([], c :: rest)
      | d :: ds => (c :: (scanSign rest).1 ++ d :: ds, (scanSign rest).2.dropWhile Char.isDigit)
    else ([], c :: rest)

/-- A number without its minus sign: whether it is an integer, its text, and
what comes after it. -/
def scanUnsigned (cs : List Char) : Option (Bool × List Char × List Char) :=
  match scanInt cs with
  | none => none
  | some (ds, rest) =>
    let frac := scanFrac rest
    let exp := scanExp frac.2
    some (frac.1.isEmpty && exp.1.isEmpty, ds ++ frac.1 ++ exp.1, exp.2)

def natOf (ds : List Char) : Nat := Nat.ofDigitChars 10 ds 0

def scanNumber : List Char → Option (Json × List Char)
  | [] => none
  | c :: cs =>
    if c = '-' then
      match scanUnsigned cs with
      | none => none
      | some (true, ds, rest) => some (.int (-(natOf ds : Int)), rest)
      | some (false, text, rest) => some (.float (String.ofList ('-' :: text)), rest)
    else
      match scanUnsigned (c :: cs) with
      | none => none
      | some (true, ds, rest) => some (.int (natOf ds), rest)
      | some (false, text, rest) => some (.float (String.ofList text), rest)

/-- `d[key] = value` of a Python dict. -/
def setItem (kvs : List (String × Json)) (key : String) (value : Json) : List (String × Json) :=
  match kvs with
  | [] => [(key, value)]
  | (k, v) :: rest => if k = key then (k, value) :: rest else (k, v) :: setItem rest key value

/-- `dict(pairs)`. -/
def dictOf (pairs : List (String × Json)) : List (String × Json) :=
  pairs.foldl (fun kvs kv => setItem kvs kv.1 kv.2) []

/-- The words that are values, after their first letter. -/
def words : List (List Char × Json) :=
  [(['n', 'u', 'l', 'l'], .null), (['t', 'r', 'u', 'e'], .bool true), (['f', 'a', 'l', 's', 'e'], .bool false),
    (['N', 'a', 'N'], .float "NaN"), (['I', 'n', 'f', 'i', 'n', 'i', 't', 'y'], .float "Infinity"),
    (['-', 'I', 'n', 'f', 'i', 'n', 'i', 't', 'y'], .float "-Infinity")]

def scanWord (cs : List Char) : List (List Char × Json) → Option (Json × List Char)
  | [] => none
  | (w, v) :: ws => if w <+: cs then some (v, cs.drop w.length) else scanWord cs ws

mutual

/-- `scan_once`. -/
def scanValue : Nat → List Char → Option (Json × List Char)
  | 0, _ => none
  | _ + 1, [] => none
  | n + 1, c :: rest =>
    if c = '"' then (scanString rest).map fun p => (.str (String.ofList p.1), p.2)
    else if c = '{' then
      match skipWs rest with
      | [] => none
      | d :: rest' =>
        if d = '}' then some (.obj [], rest')
        else (scanMembers n (d :: rest')).map fun p => (.obj (dictOf p.1), p.2)
    else if c = '[' then
      match skipWs rest with
      | [] => none
      | d :: rest' =>
        if d = ']' then some (.arr [], rest') else (scanElems n (d :: rest')).map fun p => (.arr p.1, p.2)
    else (scanNumber (c :: rest)).or (scanWord (c :: rest) words)

/-- The elements of an array, and what comes after its closing bracket. -/
def scanElems : Nat → List Char → Option (List Json × List Char)
  | 0, _ => none
  | n + 1, cs =>
    match scanValue n cs with
    | none => none
    | some (v, rest) =>
      match skipWs rest with
      | [] => none
      | d :: rest =>
        if d = ']' then some ([v], rest)
        else if d = ',' then (scanElems n (skipWs rest)).map fun p => (v :: p.1, p.2)
        else none

def scanMembers : Nat → List Char → Option (List (String × Json) × List Char)
  | 0, _ => none
  | _ + 1, [] => none
  | n + 1, c :: cs =>
    if c = '"' then
      match scanString cs with
      | none => none
      | some (key, rest) =>
        match skipWs rest with
        | [] => none
        | d :: rest =>
          if d = ':' then
            match scanValue n (skipWs rest) with
            | none => none
            | some (v, rest) =>
              match skipWs rest with
              | [] => none
              | d :: rest =>
                if d = '}' then some ([(String.ofList key, v)], rest)
                else if d = ',' then
                  (scanMembers n (skipWs rest)).map fun p => ((String.ofList key, v) :: p.1, p.2)
                else none
          else none
    else none

end

/-- `json.loads`. -/
def loads (text : String) : Option Json :=
  match scanValue (text.toList.length + 1) (skipWs text.toList) with
  | none => none
  | some (v, rest) => if skipWs rest = [] then some v else none

end Json
