/-!
# JSON documents

Documents as values. An object keeps its fields in the order in which they are
written. Whole numbers are told apart from numbers with a fraction, because the
readers of this project take only the former.

`sizeOf_field` says that a field is smaller than its object, which lets readers
of nested documents recurse on it.
-/

namespace HatCircle

inductive Json where
  | null
  | bool (value : Bool)
  | int (value : Int)
  /-- A number written with a fraction: `mantissa` divided by ten `places` times. -/
  | decimal (mantissa : Int) (places : Nat)
  | str (value : String)
  | arr (items : List Json)
  | obj (fields : List (String × Json))
deriving BEq, Repr, Inhabited

namespace Json

/-- The field `key` of an object: the first one of that name. -/
def field? (key : String) : Json → Option Json
  | .obj fields => (fields.find? fun entry => entry.1 == key).map (·.2)
  | _ => none

theorem sizeOf_field {key : String} {document value : Json}
    (h : document.field? key = some value) : sizeOf value < sizeOf document := by
  cases document with
  | obj fields =>
    simp only [field?, Option.map_eq_some_iff] at h
    obtain ⟨entry, hfind, rfl⟩ := h
    have hmem := List.sizeOf_lt_of_mem (List.mem_of_find?_eq_some hfind)
    obtain ⟨name, value⟩ := entry
    simp only [Json.obj.sizeOf_spec, Prod.mk.sizeOf_spec] at hmem ⊢
    omega
  | _ => simp [field?] at h

def str? : Json → Option String
  | .str value => some value
  | _ => none

def int? : Json → Option Int
  | .int value => some value
  | _ => none

def arr? : Json → Option (List Json)
  | .arr items => some items
  | _ => none

/-- The number of a document, if it lies in the range from `low` up to, but not
including, `high`. -/
def intWithin? (low high : Int) (document : Json) : Option Int :=
  document.int?.filter fun n => low ≤ n && n < high

def signed64? : Json → Option Int :=
  intWithin? (-0x8000000000000000) 0x8000000000000000

def unsigned64? (document : Json) : Option Nat :=
  (document.intWithin? 0 UInt64.size).map Int.toNat

def byte? (document : Json) : Option UInt8 :=
  (document.intWithin? 0 256).map fun n => UInt8.ofNat n.toNat

def bytes? (document : Json) : Option (List UInt8) := do
  (← document.arr?).mapM byte?

def ofNat (n : Nat) : Json :=
  .int n

def ofBytes (bytes : List UInt8) : Json :=
  .arr (bytes.map fun b => ofNat b.toNat)

def ofOption {α : Type} (toJson : α → Json) : Option α → Json
  | none => .null
  | some value => toJson value

end Json

end HatCircle
