import HatCircle.Json.Basic

/-!
# Documents of variants

A value of one of several variants is written as an object. In the flat form the
object holds the name of the variant in one field and the parts of the value in
the others; in the nested form it holds the name in one field and the whole value
in another. A reader also takes a list in place of the object: the name first, then
the parts in their declared order, none missing and none to spare. Fields that the
reader does not ask for are ignored.

Names are texts. Inside other documents the flat form also takes the number of the
variant for its name, and a variant without parts may be written as an object whose
only field has its name.

`sizeOf_parts` lets readers of nested documents recurse on the parts.
-/

namespace HatCircle.Json

/-- The name that a document stands for: a text is the name itself, and a number stands
for the name at that place among the numbered ones. -/
def name? (numbered : List String) : Json → Option String
  | .str name => some name
  | .int place => if 0 ≤ place then numbered[place.toNat]? else none
  | _ => none

/-- The name of the variant in a flat document, where some names have a number. -/
def variant? (numbered : List String) (key : String) : Json → Option String
  | .arr (name :: _) => name.name? numbered
  | document => (document.field? key).bind (name? numbered)

def isNull : Json → Bool
  | .null => true
  | _ => false

/-- Is it the null document or an object without fields? -/
def isVoid : Json → Bool
  | .null => true
  | .obj [] => true
  | _ => false

/-- The name of a variant without parts: a text, or the name of the only field of an
object, if nothing is in the field. -/
def bare? (isNothing : Json → Bool) : Json → Option String
  | .str name => some name
  | .obj [(name, value)] => if isNothing value then some name else none
  | _ => none

/-- The parts of a flat document, in the order of their names. -/
def parts? (names : List String) : Json → Option (List Json)
  | .arr (_ :: items) => if items.length = names.length then some items else none
  | document => names.mapM fun name => document.field? name

/-- The name of the variant and the value of a nested document. -/
def tagged? (tag content : String) : Json → Option (String × Json)
  | .arr [name, value] => (name.bare? isNull).map fun name => (name, value)
  | document => do
    let name ← (← document.field? tag).bare? isNull
    return (name, ← document.field? content)

theorem mem_of_mapM_field {document part : Json} {names : List String} {parts : List Json}
    (h : (names.mapM fun name => document.field? name) = some parts) (hmem : part ∈ parts) :
    ∃ name, document.field? name = some part := by
  induction names generalizing parts with
  | nil =>
    simp only [List.mapM_nil] at h
    cases h
    simp at hmem
  | cons name names ih =>
    rw [List.mapM_cons] at h
    cases hname : document.field? name with
    | none => simp [hname] at h
    | some value =>
      cases hrest : names.mapM fun name => document.field? name with
      | none => simp [hname, hrest] at h
      | some values =>
        simp only [hname, hrest, Option.bind_eq_bind, Option.bind_some, Option.pure_def,
          Option.some.injEq] at h
        subst h
        rcases List.mem_cons.1 hmem with rfl | hmem
        · exact ⟨name, hname⟩
        · exact ih hrest hmem

theorem sizeOf_parts {names : List String} {document part : Json} {parts : List Json}
    (h : document.parts? names = some parts) (hmem : part ∈ parts) :
    sizeOf part < sizeOf document := by
  unfold parts? at h
  split at h
  · rename_i head items
    split at h
    · cases h
      have := List.sizeOf_lt_of_mem hmem
      simp only [Json.arr.sizeOf_spec, List.cons.sizeOf_spec]
      omega
    · cases h
  · obtain ⟨name, hfield⟩ := mem_of_mapM_field h hmem
    exact sizeOf_field hfield

end HatCircle.Json
