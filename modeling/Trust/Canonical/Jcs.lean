import Mathlib
import Trust.Lib.JsonText
import Trust.Lib.Strconv

/-!
# Canonical JSON

`canonical.JSONCanonicalize`: a value is marshalled by `encoding/json`, decoded
with its number literals kept, and written again in the form of RFC 8785.  The
writer returns what it appends to the buffer.  `encoding/json` and the
conversions of doubles are parameters.
-/

namespace Trust.Canonical

open Trust.Lib

/-- The errors of package `canonical`, and those it passes on. -/
inductive Sentinel where
  | errNonFiniteNumber
  | errUnknownEncoding
  | errLossyNumber
  | strconv (e : NumError)
  | external (msg : String)
  deriving DecidableEq

abbrev Err := GoError Sentinel

def external (msg : String) : Err := .sentinel (.external msg)

/-- The dynamic values in a decoded tree besides nil, booleans, strings, slices
and maps: a `json.Number`, a `float64`, or a value of a type that has no JSON
form. -/
inductive Leaf where
  | number (lit : GoString)
  | float64 (f : Float64)
  | other (typeName : String)
  deriving DecidableEq

/-! ## Property names -/

def hasSupplementary (s : GoString) : Bool := (Utf8.runes s).any fun r ↦ 0x10000 ≤ r.toNat

/-- The loop of `jcsKeyLess` over code units. -/
def unitsLess : List ℕ → List ℕ → Bool
  | a :: ua, b :: ub => if a ≠ b then decide (a < b) else unitsLess ua ub
  | ua, ub => decide (ua.length < ub.length)

def jcsKeyLess (a b : GoString) : Bool :=
  if !hasSupplementary a && !hasSupplementary b then decide (a < b)
  else unitsLess (Utf8.utf16 (Utf8.runes a)) (Utf8.utf16 (Utf8.runes b))

/-- `sort.Slice` by `jcsKeyLess`; on keys that the comparison tells apart every
sorting algorithm gives this list. -/
def sortKeys (keys : List GoString) : List GoString :=
  keys.mergeSort fun a b ↦ !jcsKeyLess b a

/-! ## Strings -/

/-- The body of the loop of `appendJCSString`. -/
def appendRune (r : Char) : GoString :=
  if r = '"' then [92, 34]
  else if r = '\\' then [92, 92]
  else if r = '\x08' then [92, 98]
  else if r = '\x0c' then [92, 102]
  else if r = '\n' then [92, 110]
  else if r = '\r' then [92, 114]
  else if r = '\t' then [92, 116]
  else if r.toNat < 0x20 then 92 :: 117 :: Hex.encode [0, UInt8.ofNat r.toNat]
  else String.utf8EncodeChar r

def appendJCSString (s : GoString) : GoString := 34 :: ((Utf8.runes s).flatMap appendRune ++ [34])

/-! ## Numbers -/

/-- An optional minus followed by digits only. -/
def isIntegerLiteral (lit : GoString) : Bool :=
  let digits := if lit.head? = some 45 then lit.tail else lit
  !digits.isEmpty && digits.all fun c ↦ 48 ≤ c && c ≤ 57

def checkedNumber (conv : Strconv) (lit : GoString) : Outcome Err Float64 := do
  let f := (conv.parseFloat lit).1
  match (conv.parseFloat lit).2 with
  | some .badSyntax =>
      .error (.errorf "canonical: parse number %q: %w" [.sentinel (.strconv .badSyntax)] []
        [.str lit])
  | _ =>
      if isIntegerLiteral lit then
        match setString lit with
        | none => .error (.errorf "canonical: parse integer literal %q" [] [] [.str lit])
        | some i =>
            if f.toRat? ≠ some (i : ℚ) then
              .error (.errorf "%w: %s" [.sentinel .errLossyNumber] [] [.str lit])
            else if f.isNaN || f.isInf then .error (.sentinel .errNonFiniteNumber)
            else .ok f
      else if f.isNaN || f.isInf then .error (.sentinel .errNonFiniteNumber)
      else .ok f

def writeZeros (n : ℤ) : GoString := List.replicate n.toNat 48

/-- The four layouts of the significant digits, by the exponent `n`. -/
def layout (digits : GoString) (n : ℤ) : Outcome Err GoString :=
  let k : ℤ := digits.length
  if k ≤ n ∧ n ≤ 21 then .ok (digits ++ writeZeros (n - k))
  else if 0 < n ∧ n ≤ 21 then do
    let whole ← slice digits 0 n
    let frac ← sliceFrom digits n
    .ok (whole ++ 46 :: frac)
  else if -6 < n ∧ n ≤ 0 then .ok (48 :: 46 :: (writeZeros (-n) ++ digits))
  else do
    let first ← slice digits 0 1
    let frac ← if 1 < k then do
        let frac ← sliceFrom digits 1
        .ok (46 :: frac)
      else .ok []
    let m := n - 1
    .ok (first ++ (frac ++ 101 :: if 0 ≤ m then 43 :: itoa m else 45 :: itoa (-m)))

def appendJCSNumber (conv : Strconv) (f : Float64) : Outcome Err GoString :=
  if f.isNaN || f.isInf then .error (.sentinel .errNonFiniteNumber)
  else if f.isZero then .ok [48]
  else do
    let s := conv.formatFloat (if f.signbit then f.neg else f)
    let ePos := indexByte s 101
    let tail ← sliceFrom s (ePos + 1)
    let exp ← .ofExcept (fun err ↦ .errorf "canonical: parse exponent %q: %w"
      [.sentinel (.strconv err)] [] [.str s]) (atoi tail)
    let mantissa ← slice s 0 ePos
    let digits := mantissa.erase 46
    let text ← layout digits (exp + 1)
    .ok ((if f.signbit then [45] else []) ++ text)

/-! ## Values -/

mutual

/-- The text of a decoded value.  The members of an object stand in the
iteration order of the map; `t[k]` is a lookup. -/
def appendJCS (conv : Strconv) : Json Leaf → Outcome Err GoString
  | .null => .ok Json.nullText
  | .bool b => .ok (Json.boolText b)
  | .atom (.number lit) => do
      let f ← checkedNumber conv lit
      appendJCSNumber conv f
  | .atom (.float64 f) => appendJCSNumber conv f
  | .atom (.other typeName) =>
      .error (.errorf "canonical: unsupported JSON type %T" [] [] [.lit typeName])
  | .str s => .ok (appendJCSString s)
  | .arr items => do
      let texts ← appendItems conv items
      .ok (Json.arrText texts)
  | .obj members => do
      let keys := sortKeys (members.map Prod.fst)
      let texts ← keys.mapM fun k ↦ do
        let text ← ((appendMembers conv members).lookup k).getD (.ok Json.nullText)
        .ok (k, text)
      .ok (Json.objText appendJCSString texts)

def appendItems (conv : Strconv) : List (Json Leaf) → Outcome Err (List GoString)
  | [] => .ok []
  | e :: es => do
      let text ← appendJCS conv e
      let texts ← appendItems conv es
      .ok (text :: texts)

/-- What appending the value of each member comes to. -/
def appendMembers (conv : Strconv) :
    List (GoString × Json Leaf) → List (GoString × Outcome Err GoString)
  | [] => []
  | (k, e) :: ms => (k, appendJCS conv e) :: appendMembers conv ms

end

/-! ## Canonicalization -/

/-- A JSON document that `encoding/json` decodes: objects are maps, strings are
valid UTF-8, and the nesting is below the limit of its scanner. -/
structure Document where
  json : Json Literal
  wellFormed : json.wellFormed = true
  depth : json.depth ≤ 10000

/-- The decoded tree, its literals kept as `json.Number`. -/
def Document.value (doc : Document) : Json Leaf := doc.json.map fun l ↦ .number l.text

/-- `json.Marshal`, and `Decode` after `UseNumber`. -/
structure Codec (V : Type) where
  marshal : V → Except String GoString
  decode : GoString → Except String Document

def jsonCanonicalize {V : Type} (codec : Codec V) (conv : Strconv) (v : V) :
    Outcome Err GoString := do
  let raw ← .ofExcept (fun msg ↦ .errorf "canonical: marshal JSON: %w" [external msg] [] [])
    (codec.marshal v)
  let tree ← .ofExcept (fun msg ↦ .errorf "canonical: decode JSON: %w" [external msg] [] [])
    (codec.decode raw)
  appendJCS conv tree.value

end Trust.Canonical
