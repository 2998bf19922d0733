import HatCircle.Json.Error
import HatCircle.Json.Formula
import HatCircle.Json.Search
import HatCircle.Proofs.Evaluation
import HatCircle.Proofs.Reordering

/-!
# Documents that are read back

Trees, reports, rejections and outcomes are read back from their documents as they were, in
whatever order the fields of these come (`documents_lawful`).

A tree is read by induction: the operands of an operator are trees inside a document, which may be
read with numbers for names, so this is proved for readers with any numbered names. A report is
read back since its context is sorted. Whatever order its entries come in, inserting them one by
one sorts them again (`Context.ofList_eq_of_perm`).
-/

namespace HatCircle

open Json (Reordered Lawful)

/-! ### Numbers -/

theorem intWithin?_int {low high n : Int} (hlow : low ≤ n) (hhigh : n < high) :
    (Json.int n).intWithin? low high = some n := by
  rw [Json.intWithin?, Json.int?, Option.filter_some, if_pos]
  simp [hlow, hhigh]

theorem signed64?_int {n : Int} (h : InRange64 n) : (Json.int n).signed64? = some n :=
  intWithin?_int h.1 h.2

theorem unsigned64?_ofNat {n : Nat} (h : n < UInt64.size) :
    (Json.ofNat n).unsigned64? = some n := by
  rw [Json.unsigned64?, Json.ofNat, intWithin?_int (Int.natCast_nonneg n) (Int.ofNat_lt.2 h)]
  rfl

theorem byte?_ofNat (byte : UInt8) : (Json.ofNat byte.toNat).byte? = some byte := by
  have hbyte : (byte.toNat : Int) < 256 := Int.ofNat_lt.2 byte.toNat_lt
  rw [Json.byte?, Json.ofNat, intWithin?_int (Int.natCast_nonneg _) hbyte]
  simp

theorem mapM_eq_some_of_forall₂ {α β : Type} {read : α → Option β} {xs : List α} {ys : List β}
    (h : List.Forall₂ (fun x y => read x = some y) xs ys) : xs.mapM read = some ys := by
  induction h with
  | nil => rfl
  | cons hread _ ih =>
      rw [List.mapM_cons, hread, ih]
      rfl

theorem bytes?_ofBytes (bytes : List UInt8) : (Json.ofBytes bytes).bytes? = some bytes := by
  refine mapM_eq_some_of_forall₂ (List.forall₂_map_left_iff.2 ?_)
  exact List.forall₂_same.2 fun byte _ => byte?_ofNat byte

/-! ### Trees -/

/-- The offset of the rule fits in 64 bits. -/
def Rule.InRange : Rule → Prop
  | .neighbor offset => InRange64 offset
  | _ => True

theorem Rule.ofNumberedJson?_reordered {rule : Rule} (hrange : rule.InRange)
    (numbered : List String) {document : Json} (h : rule.toJson.Reordered document) :
    Rule.ofNumberedJson? numbered document = some rule := by
  cases rule with
  | ownIndex | sumOfOthers =>
      obtain ⟨hvariant, parts, hparts, -⟩ := h.flat (by decide) numbered
      rw [ofNumberedJson?, hvariant]
      exact congrArg (Option.map _) hparts
  | neighbor offset =>
      obtain ⟨hvariant, parts, hparts, heach⟩ := h.flat (by simp) numbered
      obtain - | ⟨hoffset, - | -⟩ := heach
      obtain rfl := hoffset.eq_int
      have hoffset : InRange64 offset := hrange
      have hparts : document.parts? ["offset"] = some [.int offset] := hparts
      simp only [ofNumberedJson?, hvariant, hparts, signed64?_int hoffset, Option.map_some]

theorem Operator.ofJson?_name (op : Operator) : Operator.ofJson? (.str op.name) = some op := by
  cases op <;> rfl

namespace Expr

/-- The numbers of the tree, and the offsets of its rules, fit in 64 bits. -/
def InRange : Expr → Prop
  | .number value _ => InRange64 value
  | .var _ rule => rule.InRange
  | .binary _ lhs rhs => lhs.InRange ∧ rhs.InRange

theorem ofNumberedJson?_reordered {tree : Expr} (hrange : tree.InRange) (numbered : List String)
    {document : Json} (h : tree.toJson.Reordered document) :
    ofNumberedJson? numbered document = some tree := by
  induction tree generalizing numbered document with
  | number value literal =>
      obtain ⟨hvariant, parts, hparts, heach⟩ := h.flat (by simp) numbered
      obtain - | ⟨hvalue, - | ⟨hliteral, - | -⟩⟩ := heach
      obtain rfl := hvalue.eq_int
      obtain rfl := hliteral.eq_str
      have hvalue : InRange64 value := hrange
      have hparts : document.parts? ["value", "literal"] = some [.int value, .str literal] := hparts
      simp only [ofNumberedJson?, hvariant, hparts, signed64?_int hvalue]
      rfl
  | var name rule =>
      obtain ⟨hvariant, parts, hparts, heach⟩ := h.flat (by simp) numbered
      obtain - | ⟨hname, - | ⟨hrule, - | -⟩⟩ := heach
      obtain rfl := hname.eq_str
      have hrule := Rule.ofNumberedJson?_reordered hrange Rule.names hrule
      have hparts : document.parts? ["name", "rule"] = some [.str name, _] := hparts
      simp only [ofNumberedJson?, hvariant, hparts, Rule.ofInnerJson?, hrule]
      rfl
  | binary op lhs rhs ihl ihr =>
      obtain ⟨hvariant, parts, hparts, heach⟩ := h.flat (by simp) numbered
      obtain - | ⟨hop, - | ⟨hlhs, - | ⟨hrhs, - | -⟩⟩⟩ := heach
      obtain rfl := hop.eq_str
      obtain ⟨hrangel, hranger⟩ := hrange
      have hl := ihl hrangel names hlhs
      have hr := ihr hranger names hrhs
      have hparts : document.parts? ["op", "lhs", "rhs"] = some [.str op.name, _, _] := hparts
      rw [ofNumberedJson?]
      simp only [hvariant]
      -- the match keeps its equation, so the parts cannot be rewritten in it
      split
      · rename_i hfound
        rw [hparts] at hfound
        obtain ⟨⟩ := hfound
        simp only [Operator.ofJson?_name, hl, hr]
        rfl
      · rename_i hnone
        exact absurd hparts (hnone _ _ _)

end Expr

/-! ### Contexts -/

namespace Context

theorem insertEntry_perm {key : String} (value : String) {entries : List (String × String)}
    (hkey : key ∉ entries.map (·.1)) :
    (insertEntry key value entries).Perm ((key, value) :: entries) := by
  induction entries with
  | nil => exact .refl _
  | cons entry entries ih =>
      rw [List.map_cons, List.mem_cons, not_or] at hkey
      rw [insertEntry, if_neg hkey.1]
      split
      · exact .refl _
      · exact ((ih hkey.2).cons entry).trans (.swap ..)

/-- Inserting new entries one by one keeps each of them. -/
theorem foldl_insert_perm {entries : List (String × String)} (context : Context)
    (hkeys : ((context.entries ++ entries).map (·.1)).Nodup) :
    (entries.foldl (fun context entry => context.insert entry.1 entry.2) context).entries.Perm
      (context.entries ++ entries) := by
  induction entries generalizing context with
  | nil => simp
  | cons entry entries ih =>
      have hmiddle : (context.entries ++ entry :: entries).Perm
          (entry :: context.entries ++ entries) := List.perm_middle
      have hnext := (hmiddle.map (·.1)).nodup_iff.1 hkeys
      have hfresh : entry.1 ∉ context.entries.map (·.1) := by
        intro hmem
        rw [List.cons_append, List.map_cons, List.nodup_cons, List.map_append] at hnext
        exact hnext.1 (List.mem_append_left _ hmem)
      have hinserted : (context.insert entry.1 entry.2).entries.Perm
          (entry :: context.entries) := insertEntry_perm entry.2 hfresh
      have hall := hinserted.append_right entries
      have hrest := ih _ ((hall.map (·.1)).nodup_iff.2 hnext)
      exact hrest.trans (hall.trans hmiddle.symm)

theorem nodup_keys (context : Context) : (context.entries.map (·.1)).Nodup :=
  List.pairwise_map.2 (context.sorted.imp String.ne_of_lt)

theorem forall₂_read {entries : List (String × String)} {others : List (String × Json)}
    (hnames : others.map (·.1) = (entries.map fun entry => (entry.1, Json.str entry.2)).map (·.1))
    (hvalues : List.Forall₂ Reordered
      ((entries.map fun entry => (entry.1, Json.str entry.2)).map (·.2)) (others.map (·.2))) :
    List.Forall₂ (fun (field : String × Json) entry =>
      (do return (field.1, ← field.2.str?)) = some entry) others entries := by
  induction entries generalizing others with
  | nil =>
      obtain rfl := List.map_eq_nil_iff.1 hnames
      exact .nil
  | cons entry entries ih =>
      cases others with
      | nil => cases hnames
      | cons other others =>
          obtain ⟨name, value⟩ := other
          obtain ⟨hname, hrest⟩ := List.cons.inj hnames
          obtain ⟨hvalue, hbehind⟩ := List.forall₂_cons.1 hvalues
          obtain rfl : name = entry.1 := hname
          obtain rfl := hvalue.eq_str
          exact .cons rfl (ih hrest hbehind)

/-- The order in which the entries of a context come does not matter. -/
theorem ofList_eq_of_perm {context : Context} {entries : List (String × String)}
    (h : entries.Perm context.entries) : ofList entries = context := by
  have hkeys := (h.map (·.1)).nodup_iff.2 context.nodup_keys
  have hperm := (foldl_insert_perm empty hkeys).trans h
  have hsame := hperm.eq_of_pairwise (fun a b _ _ hab hba => absurd hab (String.lt_asymm hba))
    (ofList entries).sorted context.sorted
  cases context
  exact Context.mk.injEq .. |>.mpr hsame

theorem ofJson?_reordered {context : Context} {document : Json}
    (h : context.toJson.Reordered document) : ofJson? document = some context := by
  obtain ⟨others, shown, rfl, hnames, hvalues, horder⟩ := h.exists_obj
  obtain ⟨entries, hread, hperm⟩ := List.perm_comp_forall₂ horder.symm (forall₂_read hnames hvalues)
  rw [ofJson?, Option.bind_eq_bind, mapM_eq_some_of_forall₂ hread, Option.bind_some]
  exact congrArg some (ofList_eq_of_perm hperm)

end Context

/-! ### Reports -/

theorem Family.ofTag?_tag (family : Family) : Family.ofTag? family.tag = some family := by
  cases family <;> rfl

/-- The field of a hint, if there is one. -/
def hintFields : Option String → List (String × Json)
  | none => []
  | some hint => [("hint", .str hint)]

namespace ErrorInfo

def fields (info : ErrorInfo) : List (String × Json) :=
  ("code", .str info.code) :: ("message", .str info.message) ::
    ("context", info.context.toJson) :: hintFields info.hint

theorem toJson_eq (info : ErrorInfo) : info.toJson = .obj info.fields := by
  obtain ⟨code, message, context, hint⟩ := info
  cases hint <;> rfl

theorem nodup_fields (info : ErrorInfo) : (info.fields.map (·.1)).Nodup := by
  cases hhint : info.hint <;> simp [fields, hhint, hintFields]

theorem hintOfJson?_reordered {info : ErrorInfo} {document : Json}
    (h : (Json.obj info.fields).Reordered document) :
    hintOfJson? ((document.field? "hint").getD .null) = some info.hint := by
  cases hhint : info.hint with
  | none =>
      rw [h.field?_eq_none (by simp [fields, hhint, hintFields])]
      rfl
  | some hint =>
      have hmem : ("hint", Json.str hint) ∈ info.fields := by simp [fields, hhint, hintFields]
      obtain ⟨other, hother, hreordered⟩ := h.field? info.nodup_fields hmem
      obtain rfl := hreordered.eq_str
      rw [hother]
      rfl

theorem ofJson?_reordered {info : ErrorInfo} {document : Json}
    (h : info.toJson.Reordered document) : ofJson? document = some info := by
  rw [toJson_eq] at h
  have hhint := hintOfJson?_reordered h
  obtain ⟨code, hcode, hreordered⟩ :=
    h.field? info.nodup_fields (by simp [fields] : ("code", Json.str info.code) ∈ _)
  obtain rfl := hreordered.eq_str
  obtain ⟨message, hmessage, hreordered⟩ :=
    h.field? info.nodup_fields (by simp [fields] : ("message", Json.str info.message) ∈ _)
  obtain rfl := hreordered.eq_str
  obtain ⟨context, hcontext, hreordered⟩ :=
    h.field? info.nodup_fields (by simp [fields] : ("context", info.context.toJson) ∈ _)
  have hread := Context.ofJson?_reordered hreordered
  obtain ⟨-, shown, rfl, -⟩ := h.exists_obj
  rw [ofJson?]
  simp only [hcode, hmessage, hcontext, hhint, hread, Json.str?, Option.getD_some,
    Option.bind_eq_bind, Option.bind_some]
  rfl

end ErrorInfo

theorem Error.ofJson?_reordered {error : Error} {document : Json}
    (h : error.toJson.Reordered document) : Error.ofJson? document = some error := by
  obtain ⟨content, htagged, hcontent⟩ := h.tagged (by decide)
  have hinfo := ErrorInfo.ofJson?_reordered hcontent
  rw [Error.ofJson?, htagged]
  simp only [Option.bind_eq_bind, Option.bind_some, Family.ofTag?_tag, hinfo]
  rfl

/-! ### Rejections -/

namespace Rejection

/-- The counts of the rejection fit in 64 bits. -/
def InRange : Rejection → Prop
  | .tooManyTokens count limit => count < UInt64.size ∧ limit < UInt64.size
  | _ => True

section Parts

variable {document : Json} {shown : List Json}

theorem ofText_of_parts {make : String → Rejection} {name text : String}
    (hparts : document.parts? [name] = some shown)
    (heach : List.Forall₂ Reordered [.str text] shown) :
    ofText make name document = some (make text) := by
  obtain - | ⟨htext, - | -⟩ := heach
  obtain rfl := htext.eq_str
  rw [ofText, hparts]
  rfl

theorem ofTexts_of_parts {make : String → String → Rejection} {first second a b : String}
    (hparts : document.parts? [first, second] = some shown)
    (heach : List.Forall₂ Reordered [.str a, .str b] shown) :
    ofTexts make first second document = some (make a b) := by
  obtain - | ⟨ha, - | ⟨hb, - | -⟩⟩ := heach
  obtain rfl := ha.eq_str
  obtain rfl := hb.eq_str
  rw [ofTexts, hparts]
  rfl

end Parts

theorem ofJson?_reordered {rejection : Rejection} (hrange : rejection.InRange) {document : Json}
    (h : rejection.toJson.Reordered document) : ofJson? document = some rejection := by
  have hkeys : ("category" :: rejection.parts.map (·.1)).Nodup := by
    cases rejection <;> simp [parts]
  obtain ⟨hvariant, shown, hparts, heach⟩ := h.flat hkeys []
  cases rejection with
  | invalidCharacters text | malformedBracket text | invalidBracketContent text
  | danglingOperator text =>
      simp only [category] at hvariant
      simp only [ofJson?, hvariant]
      exact ofText_of_parts hparts heach
  | consecutiveOperators first second | missingOperator first second =>
      simp only [category] at hvariant
      simp only [ofJson?, hvariant]
      exact ofTexts_of_parts hparts heach
  | tooManyTokens count limit =>
      obtain - | ⟨hcount, - | ⟨hlimit, - | -⟩⟩ := heach
      obtain rfl := hcount.eq_int
      obtain rfl := hlimit.eq_int
      have hparts : document.parts? ["count", "max"] = some [.ofNat count, .ofNat limit] := hparts
      simp only [category] at hvariant
      simp only [ofJson?, hvariant, hparts, unsigned64?_ofNat hrange.1,
        unsigned64?_ofNat hrange.2]
      rfl
  | _ =>
      simp only [category] at hvariant
      simp only [ofJson?, hvariant]
      exact congrArg (Option.map _) hparts

end Rejection

/-! ### Outcomes -/

theorem Outcome.ofJson?_reordered {outcome : Outcome} {document : Json}
    (h : outcome.toJson.Reordered document) : Outcome.ofJson? document = some outcome := by
  obtain ⟨content, htagged, hcontent⟩ := h.tagged (by decide)
  obtain rfl := hcontent.eq_ofBytes
  have hread : Assignment.ofJson? (.ofBytes outcome.assignment.hats) = some outcome.assignment :=
    congrArg (Option.map Assignment.mk) (bytes?_ofBytes outcome.assignment.hats)
  rw [Outcome.ofJson?, htagged]
  cases outcome with
  | counterexample assignment => exact congrArg (Option.map Outcome.counterexample) hread
  | noCounterexampleFound assignment =>
      exact congrArg (Option.map Outcome.noCounterexampleFound) hread

/-! ### All documents -/

/-- Each reader undoes its writer: on trees whose numbers have 64 bits, on all reports, on
rejections whose counts have 64 bits, and on all outcomes. So none of them has a document that
another one of its kind has. -/
theorem documents_lawful :
    Lawful Expr.toJson Expr.ofJson? Expr.InRange ∧
    Lawful Error.toJson Error.ofJson? (fun _ => True) ∧
    Lawful Rejection.toJson Rejection.ofJson? Rejection.InRange ∧
    Lawful Outcome.toJson Outcome.ofJson? (fun _ => True) := by
  refine ⟨.of_reads ?_, .of_reads ?_, .of_reads ?_, .of_reads ?_⟩
  · intro tree hrange document h
    exact Expr.ofNumberedJson?_reordered hrange [] h
  · intro error _ document h
    exact Error.ofJson?_reordered h
  · intro rejection hrange document h
    exact Rejection.ofJson?_reordered hrange h
  · intro outcome _ document h
    exact Outcome.ofJson?_reordered h

/-- A product, a report with a hint, a rejection with its counts and a clean outcome, with the
fields of all their objects the other way round. -/
theorem documents_lawful_reversed :
    Expr.ofJson? (.obj [
        ("rhs", .obj [("literal", .str "2"), ("value", .int 2), ("node", .str "number")]),
        ("lhs", .obj [("rule", .obj [("offset", .int (-1)), ("rule", .str "neighbor")]),
          ("name", .str "l[1]"), ("node", .str "var")]),
        ("op", .str "mul"), ("node", .str "binary")]) =
      some (.binary .mul (.var "l[1]" (.neighbor (-1))) (.number 2 "2")) ∧
    Error.ofJson? (.obj [
        ("detail", .obj [("hint", .str "append a mark"),
          ("context", .obj [("person_count", .str "10"), ("length", .str "3")]),
          ("message", .str "no outcome"), ("code", .str "wire-shape")]),
        ("family", .str "Wire")]) =
      some ⟨.wire, "wire-shape", "no outcome",
        ⟨[("length", "3"), ("person_count", "10")], by decide +kernel⟩, some "append a mark"⟩ ∧
    Rejection.ofJson? (.obj [("max", .int 64), ("count", .int 65),
        ("category", .str "too-many-tokens")]) = some (.tooManyTokens 65 64) ∧
    Outcome.ofJson? (.obj [("assignment", .arr [.int 1, .int 0]),
        ("verdict", .str "no-counterexample-found")]) =
      some (.noCounterexampleFound ⟨[1, 0]⟩) := by
  obtain ⟨htrees, herrors, hrejections, houtcomes⟩ := documents_lawful
  refine ⟨htrees.reads _ ?_ _ ?_, herrors.reads _ trivial _ ?_, hrejections.reads _ ?_ _ ?_,
    houtcomes.reads _ trivial _ ?_⟩
  · exact ⟨(by decide : InRange64 (-1)), (by decide : InRange64 2)⟩
  · have hrule : (Rule.neighbor (-1)).toJson.Reordered
        (.obj [("offset", .int (-1)), ("rule", .str "neighbor")]) :=
      .reversed rfl (.cons (.same _) (.cons (.same _) .nil))
    have hlhs : (Expr.var "l[1]" (.neighbor (-1))).toJson.Reordered (.obj [
        ("rule", .obj [("offset", .int (-1)), ("rule", .str "neighbor")]),
        ("name", .str "l[1]"), ("node", .str "var")]) :=
      .reversed rfl (.cons (.same _) (.cons (.same _) (.cons hrule .nil)))
    have hrhs : (Expr.number 2 "2").toJson.Reordered
        (.obj [("literal", .str "2"), ("value", .int 2), ("node", .str "number")]) :=
      .reversed rfl (.cons (.same _) (.cons (.same _) (.cons (.same _) .nil)))
    exact .reversed rfl
      (.cons (.same _) (.cons (.same _) (.cons hlhs (.cons hrhs .nil))))
  · have hcontext : Reordered (.obj [("length", .str "3"), ("person_count", .str "10")])
        (.obj [("person_count", .str "10"), ("length", .str "3")]) :=
      .reversed rfl (.cons (.same _) (.cons (.same _) .nil))
    exact .reversed rfl (.cons (.same _) (.cons (.reversed rfl
      (.cons (.same _) (.cons (.same _) (.cons hcontext (.cons (.same _) .nil))))) .nil))
  · exact ⟨by decide, by decide⟩
  · exact .reversed rfl (.cons (.same _) (.cons (.same _) (.cons (.same _) .nil)))
  · exact .reversed rfl (.cons (.same _) (.cons (.same _) .nil))

end HatCircle
