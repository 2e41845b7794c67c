import Ubx.Base.RefCount
import Ubx.Json.Jansson

/-!
# JSON values as the library keeps them

A `json_t *` points to a counted cell, or to one of the three literals, which are static and
not counted. Containers hold pointers. `json_object_set` takes a reference of its own, and
`json_decref` of the last reference releases a value and gives up what it holds. The
functions run in a monad that fails when a value is used after it has been released.
-/

namespace Ubx.Json

open Ubx.Base

/-- A `json_t *` that is not NULL. -/
inductive Ptr
  | null
  | bool (b : Bool)
  | cell (r : Nat)
  deriving DecidableEq

/-- What is in a cell. -/
inductive Node
  | integer (n : Int64)
  | real (x : RealLexeme)
  | string (s : Bytes)
  | array (ps : List Ptr)
  | object (ms : List (Bytes × Ptr))

/-- The counted reference of a pointer, if it has one. -/
def Ptr.refs : Ptr → List Nat
  | .cell r => [r]
  | _ => []

/-- References in a cell. -/
def Node.kids : Node → List Nat
  | .array ps => ps.flatMap Ptr.refs
  | .object ms => ms.flatMap (·.2.refs)
  | _ => []

/-- The text of a string. -/
def Node.stringValue : Option Node → Option Bytes
  | some (.string s) => some s
  | _ => none

/-- An array or not. -/
def Node.isArray : Option Node → Bool
  | some (.array _) => true
  | _ => false

/-- An object or not. -/
def Node.isObject : Option Node → Bool
  | some (.object _) => true
  | _ => false

/-- The number of items. -/
def Node.arraySize : Option Node → Nat
  | some (.array ps) => ps.length
  | _ => 0

/-- All values that have been created. -/
abbrev Heap := RefHeap Node

/-- Every count is the number of references held by the program or by live containers. -/
abbrev Counted (h : Heap) (held : List Nat) : Prop := RefHeap.Counted Node.kids h held

/-- Functions of the library; a failure is the use of a released value. -/
abbrev HeapM := StateT Heap Option

/-- The member under a key. -/
def getMember (key : Bytes) : List (Bytes × Ptr) → Option Ptr
  | [] => none
  | (k, p) :: ms => if k = key then some p else getMember key ms

/-- Replace the member under a key in place, or append one. -/
def setMember (key : Bytes) (p : Ptr) : List (Bytes × Ptr) → List (Bytes × Ptr)
  | [] => [(key, p)]
  | (k, q) :: ms => if k = key then (k, p) :: ms else (k, q) :: setMember key p ms

/-- A new value with one reference. -/
def make (x : Node) : HeapM Ptr := fun h ↦ some (.cell h.cells.length, h.alloc x)

/-- What a pointer points to, unless that is a literal. -/
def node : Ptr → HeapM (Option Node)
  | .cell r => fun h ↦ (h.deref r).map fun x ↦ (some x, h)
  | _ => pure none

/-- Write to a cell. -/
def storeNode (r : Nat) (x : Node) : HeapM Unit := fun h ↦ (h.store r x).map ((), ·)

/-- `json_object`. -/
def jsonObject : HeapM Ptr := make (.object [])

/-- `json_array`. -/
def jsonArray : HeapM Ptr := make (.array [])

/-- `json_integer`. -/
def jsonInteger (n : Int64) : HeapM Ptr := make (.integer n)

/-- `json_string`: NULL for text that is not valid UTF-8. -/
def jsonString (t : Bytes) : HeapM (Option Ptr) :=
  if utf8Valid (cString t) then do
    let p ← make (.string (cString t))
    pure (some p)
  else pure none

/-- `json_incref`. -/
def jsonIncref : Ptr → HeapM Unit
  | .cell r => fun h ↦ (h.incref r).map ((), ·)
  | _ => pure ()

/-- `json_decref`, which does nothing to NULL. -/
def jsonDecref : Option Ptr → HeapM Unit
  | some (.cell r) => fun h ↦ (h.decref Node.kids r).map ((), ·)
  | _ => pure ()

/-- `json_object_set`: no effect for a NULL value; on anything but an object, and for the
object itself as the value, the new reference is given up at once. -/
def jsonObjectSet (o : Ptr) (key : Bytes) : Option Ptr → HeapM Unit
  | none => pure ()
  | some p => do
    jsonIncref p
    let x ← node o
    match o, x with
    | .cell r, some (.object ms) =>
      if o = p then jsonDecref (some p)
      else do
        storeNode r (.object (setMember key p ms))
        jsonDecref (getMember key ms)
    | _, _ => jsonDecref (some p)

/-- `json_object_set(o, key, json_string(t))`. -/
def jsonObjectSetString (o : Ptr) (key t : Bytes) : HeapM Unit := do
  let p ← jsonString t
  jsonObjectSet o key p

/-- `json_object_get`; the reference stays with the object. -/
def jsonObjectGet (o : Ptr) (key : Bytes) : HeapM (Option Ptr) := do
  let x ← node o
  match x with
  | some (.object ms) => pure (getMember key ms)
  | _ => pure none

/-- `json_string_value`: NULL for NULL and for anything but a string. -/
def jsonStringValue : Option Ptr → HeapM (Option Bytes)
  | none => pure none
  | some p => do
    let x ← node p
    pure (Node.stringValue x)

/-- `json_is_array`. -/
def jsonIsArray (p : Ptr) : HeapM Bool := do
  let x ← node p
  pure (Node.isArray x)

/-- `json_is_object`. -/
def jsonIsObject (p : Ptr) : HeapM Bool := do
  let x ← node p
  pure (Node.isObject x)

/-- `json_array_size`: zero for anything but an array. -/
def jsonArraySize (p : Ptr) : HeapM Nat := do
  let x ← node p
  pure (Node.arraySize x)

/-- Read a value, through at most `n` cells one in the other. -/
def readValue (h : Heap) : Nat → Ptr → Option Json
  | _, .null => some .null
  | _, .bool b => some (.bool b)
  | 0, .cell _ => none
  | n + 1, .cell r =>
    match h.deref r with
    | none => none
    | some (.integer i) => some (.integer i)
    | some (.real x) => some (.real x)
    | some (.string s) => some (.string s)
    | some (.array ps) => (ps.mapM (readValue h n)).map .array
    | some (.object ms) =>
      (ms.mapM fun m ↦ (readValue h n m.2).map fun v ↦ (m.1, v)).map .object

mutual

/-- Create a value. -/
def build : Json → Heap → Ptr × Heap
  | .null, h => (.null, h)
  | .bool b, h => (.bool b, h)
  | .integer n, h => (.cell h.cells.length, h.alloc (.integer n))
  | .real x, h => (.cell h.cells.length, h.alloc (.real x))
  | .string s, h => (.cell h.cells.length, h.alloc (.string s))
  | .array xs, h =>
    let (ps, h) := buildItems xs h
    (.cell h.cells.length, h.alloc (.array ps))
  | .object ms, h =>
    let (ps, h) := buildMembers ms h
    (.cell h.cells.length, h.alloc (.object ps))

/-- Create the items of an array. -/
def buildItems : List Json → Heap → List Ptr × Heap
  | [], h => ([], h)
  | x :: xs, h =>
    let (p, h) := build x h
    let (ps, h) := buildItems xs h
    (p :: ps, h)

/-- Create the members of an object. -/
def buildMembers : List (Bytes × Json) → Heap → List (Bytes × Ptr) × Heap
  | [], h => ([], h)
  | (k, v) :: ms, h =>
    let (p, h) := build v h
    let (ps, h) := buildMembers ms h
    ((k, p) :: ps, h)

end

/-- `json_loads(text, 0, &error)`: a new value, or NULL. -/
def jsonLoads (J : Jansson) (text : Bytes) : HeapM (Option Ptr) := fun h ↦
  match J.loads text with
  | none => some (none, h)
  | some v => some (some (build v h).1, (build v h).2)

/-- `json_dumps(value, JSON_ENCODE_ANY)`. No value has more cells one in the other than
there are cells. -/
def jsonDumps (J : Jansson) (p : Ptr) : HeapM Bytes := fun h ↦
  (readValue h h.cells.length p).map fun v ↦ (J.dumps v, h)

end Ubx.Json
