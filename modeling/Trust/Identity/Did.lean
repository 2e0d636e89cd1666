import Mathlib
import Trust.Lib.GoValues

/-!
# The DID scanner

`parse` of package `did`: one pass over the bytes of an identifier with five
states.  The scanner keeps the positions where the components start, `-1` for
none, and cuts the components out at the end.
-/

namespace Trust.Did

open Trust.Lib

inductive Sentinel where
  | errMissingPrefix
  | errInvalidMethodName
  | errEmptyMethodSpecificID
  | errInvalidIDChar
  | errAuthorityNotPermitted
  deriving DecidableEq

abbrev Err := GoError Sentinel

def charMethod : UInt8 := 1
def charID : UInt8 := 2
def charUnreserved : UInt8 := 4
def charSubDelim : UInt8 := 8
def charHex : UInt8 := 16

/-- The table of character classes, one bit a class. -/
def didCharset (c : UInt8) : UInt8 :=
  (if 97 ≤ c ∧ c ≤ 122 then charMethod ||| charID ||| charUnreserved else 0) |||
  (if 65 ≤ c ∧ c ≤ 90 then charID ||| charUnreserved else 0) |||
  (if 48 ≤ c ∧ c ≤ 57 then charMethod ||| charID ||| charUnreserved ||| charHex else 0) |||
  (if 97 ≤ c ∧ c ≤ 102 then charHex else 0) |||
  (if 65 ≤ c ∧ c ≤ 70 then charHex else 0) |||
  -- `-._`
  (if c ∈ [45, 46, 95] then charID ||| charUnreserved else 0) |||
  -- `~`
  (if c = 126 then charUnreserved else 0) |||
  -- `!$&'()*+,;=`
  (if c ∈ [33, 36, 38, 39, 40, 41, 42, 43, 44, 59, 61] then charSubDelim else 0)

def inClass (c mask : UInt8) : Bool := decide (didCharset c &&& mask ≠ 0)

structure DID where
  original : GoString
  method : GoString
  methodSpecificID : GoString
  path : GoString
  query : GoString
  fragment : GoString
  isURL : Bool
  deriving DecidableEq

inductive State where
  | method
  | id
  | path
  | query
  | fragment
  deriving DecidableEq

/-- The variables of the loop besides the index. -/
structure Scan where
  state : State := .method
  methodEnd : ℤ := -1
  idStart : ℤ := -1
  idEnd : ℤ := -1
  pathStart : ℤ := -1
  queryStart : ℤ := -1
  fragmentStart : ℤ := -1
  url : Bool := false

/-- The index of the last byte that was read, and whether it was acceptable. -/
def validEscapedOr (c : UInt8) (s : GoString) (i : ℕ) (mask : UInt8) : ℕ × Bool :=
  if c ≠ 37 then (i, inClass c mask)
  else
    match s[i + 1]?, s[i + 2]? with
    | some a, some b => if inClass a charHex && inClass b charHex then (i + 2, true) else (i, false)
    | _, _ => (i, false)

def escapedOr (c : UInt8) (s : GoString) (i : ℕ) (mask : UInt8) (m : Scan) :
    Outcome Err (ℕ × Scan) :=
  match validEscapedOr c s i mask with
  | (next, true) => .ok (next, m)
  | (_, false) => .error (.sentinel .errInvalidIDChar)

/-- The body of the loop in the state of the method-specific identifier. -/
def stepID (s : GoString) (i : ℕ) (c : UInt8) (m : Scan) : Outcome Err (ℕ × Scan) :=
  if c = 47 ∨ c = 63 ∨ c = 35 then
    if (i : ℤ) = m.idStart ∨ s[i - 1]? = some 58 then .error (.sentinel .errEmptyMethodSpecificID)
    else if c = 47 then
      if s[i + 1]? = some 47 then .error (.sentinel .errAuthorityNotPermitted)
      else .ok (i, { m with idEnd := i, url := true, pathStart := i, state := .path })
    else if c = 63 then
      .ok (i, { m with idEnd := i, url := true, queryStart := i + 1, state := .query })
    else .ok (i, { m with idEnd := i, url := true, fragmentStart := i + 1, state := .fragment })
  else if c = 58 then .ok (i, m)
  else escapedOr c s i charID m

/-- The body of the loop: the index of the last byte read, and the variables. -/
def step (s : GoString) (i : ℕ) (c : UInt8) (m : Scan) : Outcome Err (ℕ × Scan) :=
  match m.state with
  | .method =>
      if c = 58 then
        if i = 4 then .error (.sentinel .errInvalidMethodName)
        else .ok (i, { m with methodEnd := i, idStart := i + 1, state := .id })
      else if !inClass c charMethod then .error (.sentinel .errInvalidMethodName)
      else .ok (i, m)
  | .id => stepID s i c m
  | .path =>
      if c = 63 then .ok (i, { m with queryStart := i + 1, state := .query })
      else if c = 35 then .ok (i, { m with fragmentStart := i + 1, state := .fragment })
      else if c = 47 ∨ c = 58 ∨ c = 64 then .ok (i, m)
      else escapedOr c s i (charUnreserved ||| charSubDelim) m
  | .query =>
      if c = 35 then .ok (i, { m with fragmentStart := i + 1, state := .fragment })
      else if c = 47 ∨ c = 63 ∨ c = 58 ∨ c = 64 then .ok (i, m)
      else escapedOr c s i (charUnreserved ||| charSubDelim) m
  | .fragment =>
      if c = 47 ∨ c = 63 ∨ c = 58 ∨ c = 64 then .ok (i, m)
      else escapedOr c s i (charUnreserved ||| charSubDelim) m

def Scan.idStop (s : GoString) (m : Scan) : ℤ := if m.idEnd < 0 then s.length else m.idEnd

def Scan.pathOf (s : GoString) (m : Scan) : Outcome Err GoString :=
  if 0 ≤ m.pathStart then
    slice s m.pathStart
      (if 0 ≤ m.queryStart then m.queryStart - 1
      else if 0 ≤ m.fragmentStart then m.fragmentStart - 1
      else s.length)
  else .ok []

def Scan.queryOf (s : GoString) (m : Scan) : Outcome Err GoString :=
  if 0 ≤ m.queryStart then
    slice s m.queryStart (if 0 ≤ m.fragmentStart then m.fragmentStart - 1 else s.length)
  else .ok []

def Scan.fragmentOf (s : GoString) (m : Scan) : Outcome Err GoString :=
  if 0 ≤ m.fragmentStart then sliceFrom s m.fragmentStart else .ok []

/-- What follows the loop. -/
def finish (s : GoString) (m : Scan) : Outcome Err DID :=
  if m.state = .method then .error (.sentinel .errInvalidMethodName)
  else if m.idStart = s.length ∨ (m.idEnd < 0 ∧ s.getLast? = some 58) then
    .error (.sentinel .errEmptyMethodSpecificID)
  else do
    let method ← slice s 4 m.methodEnd
    let methodSpecificID ← slice s m.idStart (m.idStop s)
    let path ← m.pathOf s
    let query ← m.queryOf s
    let fragment ← m.fragmentOf s
    .ok ⟨s, method, methodSpecificID, path, query, fragment, m.url⟩

/-- The loop from the index `i` on, and what follows it; the fuel bounds the
number of turns. -/
def run (s : GoString) : ℕ → ℕ → Scan → Outcome Err DID
  | fuel, i, m =>
      match s[i]? with
      | none => finish s m
      | some c =>
          match fuel with
          | 0 => .spin
          | fuel + 1 => do
              let (last, m) ← step s i c m
              run s fuel (last + 1) m

def scheme : GoString := [100, 105, 100, 58]

def parseBare (s : GoString) : Outcome Err DID :=
  if ¬ scheme.isPrefixOf s then .error (.sentinel .errMissingPrefix)
  else run s s.length 4 {}

/-- `Parse`; the unexported `parse` is `parseBare`. -/
def parse (s : GoString) : Outcome Err DID :=
  (parseBare s).mapError fun err ↦ .errorf "parse DID %q: %w" [err] [] [.str s]

def isDID (s : GoString) : Bool :=
  match parseBare s with
  | .ok d => !d.isURL
  | _ => false

end Trust.Did
