import Mathlib.Algebra.Group.Nat.Defs
import IotClient.Json.Value
import IotClient.Mem.Read

/-!
# jansson

The JSON library of the WebSocket codec. Its functions on values are here as its manual gives
them, a `json_t *` being an `Option Value` with `none` for `NULL`. Its two functions on text
are a parameter, `Jansson`; what the codec relies on is `Jansson.Inverts`.
-/

namespace IotClient.Ws

open Mem Json

/-- `json_dumps(·, JSON_COMPACT)` and `json_loads`. -/
structure Jansson where
  dumps : Value → Option (List UInt8)
  loads : List UInt8 → Option Value

/-- An object that can be written as JSON is written, and read back from its text. -/
def Jansson.Inverts (lib : Jansson) : Prop :=
  ∀ ms, (Value.obj ms).Valid →
    ∃ text, lib.dumps (.obj ms) = some text ∧ lib.loads text = some (.obj ms)

/-! ### Making values -/

abbrev Members := List (List UInt8 × Value)

def jsonInteger (n : Int) : Option Value := some (.int n)

/-- `json_true()` or `json_false()`, by a C truth value. -/
def jsonBool (b : Int) : Option Value := some (.bool (b ≠ 0))

/-- `json_stringn`: `NULL` for bytes that are not UTF-8. -/
def jsonStringn (s : List UInt8) : Option Value := if utf8 s then some (.str s) else none

def jsonString : Ptr CString → Run (Option Value)
  | .indet => .error .indet
  | .null => .ok none
  | .ref s => .ok (jsonStringn s.bytes)

/-- `json_object_set_new`, which does nothing when the value is `NULL`. -/
def setNew (root : Members) (k : String) : Option Value → Members
  | none => root
  | some v => insert root (key k) v

/-! ### Taking values apart -/

/-- `json_object_get` -/
def objectGet (j : Option Value) (k : String) : Option Value := j.bind (Value.get (key k))

/-- `json_integer_value`: 0 for what is no integer. -/
def integerValue : Option Value → Int
  | some (.int n) => n
  | _ => 0

/-- `json_string_value`: `NULL` for what is no string. -/
def stringValue : Option Value → Ptr CString
  | some (.str s) => .ref (CString.ofBytes s)
  | _ => .null

/-- `json_typeof(j) == JSON_TRUE`, as the 0 or 1 the code makes of it; the macro reads through
its argument. -/
def flag : Option Value → Run Int
  | none => .error .nullDeref
  | some (.bool true) => .ok 1
  | some _ => .ok 0

/-- `json_array_get` at the indices below `json_array_size`. -/
def arrayElems : Option Value → List Value
  | some (.arr xs) => xs
  | _ => []

/-- A `json_int_t` stored into an enumeration. -/
def enumValue (n : Int) : Nat := (n % 2 ^ 32).toNat

/-- A `json_int_t` stored into an `int`. -/
def intValue (n : Int) : Int := n.bmod (2 ^ 32)

/-! ### Members that were set -/

section Members

variable {root : Members} {k : String} {v : Option Value}

theorem objectGet_self (h : v.isSome) : objectGet (some (.obj (setNew root k v))) k = v := by
  obtain ⟨w, rfl⟩ := Option.isSome_iff_exists.mp h
  simp [setNew, objectGet, Value.get, lookup_insert]

theorem objectGet_ne {k' : String} (h : key k' ≠ key k) :
    objectGet (some (.obj (setNew root k v))) k' = objectGet (some (.obj root)) k' := by
  cases v with
  | none => rfl
  | some v => simp [setNew, objectGet, Value.get, lookup_insert, h]

theorem valid_setNew (hroot : (Value.obj root).Valid) (hk : IsText (key k))
    (hv : ∀ w, v = some w → w.Valid) : (Value.obj (setNew root k v)).Valid := by
  cases v with
  | none => exact hroot
  | some v => exact valid_insert hroot hk (hv v rfl)

end Members

end IotClient.Ws
