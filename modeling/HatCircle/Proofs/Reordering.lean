import HatCircle.Json.Variant
import Mathlib.Data.List.Forall2
import Mathlib.Data.List.Nodup

/-!
# Reordered documents

The fields of an object have no order that matters. `Json.Reordered` relates a document to those
with the same fields in any order, at every depth, and `Json.Lawful` says that a reader takes all
of them back to the value that was written.

A flat document gives its readers the name of its variant and its parts (`Reordered.flat`), and a
nested one its name and its content (`Reordered.tagged`), each part reordered in its turn.
-/

namespace HatCircle.Json

/-! ### Documents with the same fields -/

/-- The second document is the first one with the fields of its objects in some order. -/
inductive Reordered : Json → Json → Prop where
  | same (document : Json) : Reordered document document
  | arr {items others : List Json} (each : List.Forall₂ Reordered items others) :
      Reordered (.arr items) (.arr others)
  | obj {fields others shown : List (String × Json)}
      (names : others.map (·.1) = fields.map (·.1))
      (values : List.Forall₂ Reordered (fields.map (·.2)) (others.map (·.2)))
      (order : others.Perm shown) : Reordered (.obj fields) (.obj shown)

/-- Reading undoes writing for the values that fit, in whatever order the fields come, so that
different values share no document. -/
structure Lawful {α : Type} (toJson : α → Json) (ofJson? : Json → Option α) (fits : α → Prop) :
    Prop where
  reads : ∀ value, fits value → ∀ document, (toJson value).Reordered document →
    ofJson? document = some value
  separates : ∀ value other, fits value → fits other → ∀ document,
    (toJson value).Reordered document → (toJson other).Reordered document → value = other

theorem Lawful.of_reads {α : Type} {toJson : α → Json} {ofJson? : Json → Option α}
    {fits : α → Prop} (h : ∀ value, fits value → ∀ document, (toJson value).Reordered document →
      ofJson? document = some value) : Lawful toJson ofJson? fits := by
  refine ⟨h, ?_⟩
  intro value other hvalue hother document hshown hshown'
  exact Option.some.inj ((h value hvalue document hshown).symm.trans
    (h other hother document hshown'))

theorem field?_of_mem {key : String} {value : Json} {fields : List (String × Json)}
    (hkeys : (fields.map (·.1)).Nodup) (hmem : (key, value) ∈ fields) :
    field? key (.obj fields) = some value := by
  induction fields with
  | nil => cases hmem
  | cons field fields ih =>
      rw [List.map_cons, List.nodup_cons] at hkeys
      rcases List.mem_cons.1 hmem with rfl | hmem
      · simp [field?]
      · have hne : field.1 ≠ key := by
          rintro rfl
          exact hkeys.1 (List.mem_map.2 ⟨_, hmem, rfl⟩)
        have hrest := ih hkeys.2 hmem
        simp only [field?] at hrest ⊢
        rwa [List.find?_cons_of_neg (by simpa using hne)]

theorem variant?_obj (numbered : List String) (key : String) (fields : List (String × Json)) :
    variant? numbered key (.obj fields) =
      (field? key (.obj fields)).bind (name? numbered) :=
  rfl

theorem parts?_obj (names : List String) (fields : List (String × Json)) :
    parts? names (.obj fields) = names.mapM fun name => field? name (.obj fields) :=
  rfl

theorem tagged?_obj (tag content : String) (fields : List (String × Json)) :
    tagged? tag content (.obj fields) = (do
      let name ← (← field? tag (.obj fields)).bare? isNull
      return (name, ← field? content (.obj fields))) :=
  rfl

namespace Reordered

variable {document : Json} {fields : List (String × Json)}

theorem eq_str {text : String} (h : Reordered (.str text) document) : document = .str text := by
  cases h
  rfl

theorem eq_int {n : Int} (h : Reordered (.int n) document) : document = .int n := by
  cases h
  rfl

/-- The fields stand the other way round, each with its own value reordered. -/
theorem reversed {shown : List (String × Json)}
    (names : shown.reverse.map (·.1) = fields.map (·.1))
    (values : List.Forall₂ Reordered (fields.map (·.2)) (shown.reverse.map (·.2))) :
    Reordered (.obj fields) (.obj shown) :=
  .obj names values shown.reverse_perm

theorem exists_obj (h : Reordered (.obj fields) document) :
    ∃ others shown : List (String × Json), document = .obj shown ∧
      others.map (·.1) = fields.map (·.1) ∧
      List.Forall₂ Reordered (fields.map (·.2)) (others.map (·.2)) ∧ others.Perm shown := by
  cases h with
  | same =>
      exact ⟨fields, fields, rfl, rfl, List.forall₂_same.2 fun value _ => .same value, .refl fields⟩
  | @obj _ others shown hnames hvalues horder =>
      exact ⟨others, shown, rfl, hnames, hvalues, horder⟩

theorem exists_mem {others : List (String × Json)} (hnames : others.map (·.1) = fields.map (·.1))
    (hvalues : List.Forall₂ Reordered (fields.map (·.2)) (others.map (·.2))) {key : String}
    {value : Json} (hmem : (key, value) ∈ fields) :
    ∃ other, (key, other) ∈ others ∧ Reordered value other := by
  induction fields generalizing others with
  | nil => cases hmem
  | cons field fields ih =>
      cases others with
      | nil => cases hnames
      | cons other others =>
          rw [List.map_cons, List.map_cons] at hnames hvalues
          obtain ⟨hname, hnames⟩ := List.cons.inj hnames
          obtain ⟨hvalue, hvalues⟩ := List.forall₂_cons.1 hvalues
          rcases List.mem_cons.1 hmem with rfl | hmem
          · obtain rfl : other.1 = key := hname
            exact ⟨other.2, List.mem_cons_self, hvalue⟩
          · obtain ⟨shown, hshown, hreordered⟩ := ih hnames hvalues hmem
            exact ⟨shown, List.mem_cons_of_mem _ hshown, hreordered⟩

/-- A field of the first document is a field of the second one, with its value reordered. -/
theorem field? (h : Reordered (.obj fields) document) (hkeys : (fields.map (·.1)).Nodup)
    {key : String} {value : Json} (hmem : (key, value) ∈ fields) :
    ∃ other, document.field? key = some other ∧ Reordered value other := by
  obtain ⟨others, shown, rfl, hnames, hvalues, horder⟩ := h.exists_obj
  obtain ⟨other, hother, hreordered⟩ := exists_mem hnames hvalues hmem
  refine ⟨other, field?_of_mem ?_ (horder.mem_iff.1 hother), hreordered⟩
  rw [← (horder.map (·.1)).nodup_iff, hnames]
  exact hkeys

/-- What the first document has no field for, the second one has none for. -/
theorem field?_eq_none (h : Reordered (.obj fields) document) {key : String}
    (hkey : key ∉ fields.map (·.1)) : document.field? key = none := by
  obtain ⟨others, shown, rfl, hnames, -, horder⟩ := h.exists_obj
  rw [← hnames, (horder.map (·.1)).mem_iff] at hkey
  rw [Json.field?, Option.map_eq_none_iff, List.find?_eq_none]
  intro field hfield hfound
  exact hkey (List.mem_map.2 ⟨field, hfield, beq_iff_eq.1 hfound⟩)

/-- A list of numbers has no fields to reorder. -/
theorem eq_ofBytes {bytes : List UInt8} (h : Reordered (.ofBytes bytes) document) :
    document = .ofBytes bytes := by
  cases h with
  | same => rfl
  | @arr _ others heach =>
      rw [List.forall₂_map_left_iff] at heach
      rw [ofBytes, Json.arr.injEq, ← List.forall₂_eq_eq_eq, List.forall₂_map_right_iff]
      exact heach.flip.imp fun other byte hshown => hshown.eq_int

/-- A flat document gives the name of its variant and its parts, each of them reordered. -/
theorem flat {tag name : String} {fields : List (String × Json)}
    (h : Reordered (.obj ((tag, .str name) :: fields)) document)
    (hkeys : (tag :: fields.map (·.1)).Nodup) (numbered : List String) :
    document.variant? numbered tag = some name ∧
      ∃ parts, document.parts? (fields.map (·.1)) = some parts ∧
        List.Forall₂ Reordered (fields.map (·.2)) parts := by
  obtain ⟨others, shown, rfl, -, -, -⟩ := h.exists_obj
  constructor
  · obtain ⟨other, hother, hname⟩ := h.field? hkeys List.mem_cons_self
    obtain rfl := hname.eq_str
    rw [variant?_obj, hother]
    rfl
  · have hfields : ∀ field ∈ fields, ∃ other,
        (Json.obj shown).field? field.1 = some other ∧ Reordered field.2 other :=
      fun field hfield => h.field? hkeys (List.mem_cons_of_mem _ hfield)
    rw [parts?_obj]
    clear h hkeys
    induction fields with
    | nil => exact ⟨[], rfl, .nil⟩
    | cons field fields ih =>
        obtain ⟨other, hother, hreordered⟩ := hfields field List.mem_cons_self
        obtain ⟨parts, hparts, heach⟩ :=
          ih fun field hfield => hfields field (List.mem_cons_of_mem _ hfield)
        refine ⟨other :: parts, ?_, .cons hreordered heach⟩
        rw [List.map_cons, List.mapM_cons, hother, hparts]
        rfl

/-- A nested document gives its name and its content, with the content reordered. -/
theorem tagged {tag content name : String} {value : Json}
    (h : Reordered (.obj [(tag, .str name), (content, value)]) document) (hne : tag ≠ content) :
    ∃ other, document.tagged? tag content = some (name, other) ∧ Reordered value other := by
  have hkeys : ([(tag, Json.str name), (content, value)].map (·.1)).Nodup := by simp [hne]
  obtain ⟨shownName, hname, hreordered⟩ := h.field? hkeys List.mem_cons_self
  obtain rfl := hreordered.eq_str
  obtain ⟨other, hother, hreordered⟩ := h.field? hkeys (by simp : (content, value) ∈ _)
  obtain ⟨others, shown, rfl, -, -, -⟩ := h.exists_obj
  refine ⟨other, ?_, hreordered⟩
  rw [tagged?_obj, hname, hother]
  rfl

end Reordered

end HatCircle.Json
