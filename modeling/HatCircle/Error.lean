import HatCircle.Text.Numeral

/-!
# Error reports

Every failure of the tool is reported in one form: a family, a stable code, a
message, a context of named values and sometimes a hint. The causes themselves
are types of their own, next to the operations that fail; each has a function
into `Error`.

The context is kept in increasing order of its keys with each key once, so two
contexts with the same entries are equal. `Context.insert` keeps that order.
-/

namespace HatCircle

structure Context where
  entries : List (String × String)
  sorted : entries.Pairwise fun a b => a.1 < b.1
deriving DecidableEq

namespace Context

def empty : Context := ⟨[], .nil⟩

/-- Puts a value at its place among sorted entries; an entry of the same name gives way. -/
def insertEntry (key value : String) : List (String × String) → List (String × String)
  | [] => [(key, value)]
  | entry :: rest =>
    if key < entry.1 then (key, value) :: entry :: rest
    else if key = entry.1 then (key, value) :: rest
    else entry :: insertEntry key value rest

theorem fst_of_mem_insertEntry {key value : String} {entries : List (String × String)}
    {e : String × String} (h : e ∈ insertEntry key value entries) :
    e.1 = key ∨ e ∈ entries := by
  induction entries with
  | nil => simp_all [insertEntry]
  | cons entry rest ih =>
    unfold insertEntry at h
    split at h
    · rcases List.mem_cons.1 h with rfl | h
      · exact .inl rfl
      · exact .inr h
    · split at h
      · rcases List.mem_cons.1 h with rfl | h
        · exact .inl rfl
        · exact .inr (List.mem_cons_of_mem _ h)
      · rcases List.mem_cons.1 h with rfl | h
        · exact .inr (List.mem_cons_self ..)
        · exact (ih h).imp id (List.mem_cons_of_mem _)

theorem sorted_insertEntry (key value : String) {entries : List (String × String)}
    (h : entries.Pairwise fun a b => a.1 < b.1) :
    (insertEntry key value entries).Pairwise fun a b => a.1 < b.1 := by
  induction entries with
  | nil => simp [insertEntry]
  | cons entry rest ih =>
    have hrest := List.pairwise_cons.1 h
    unfold insertEntry
    split
    · rename_i hlt
      refine List.pairwise_cons.2 ⟨fun e he => ?_, h⟩
      rcases List.mem_cons.1 he with rfl | he
      · exact hlt
      · exact String.lt_trans hlt (hrest.1 e he)
    · rename_i hnlt
      split
      · rename_i heq
        exact List.pairwise_cons.2 ⟨fun e he => heq ▸ hrest.1 e he, hrest.2⟩
      · rename_i hne
        refine List.pairwise_cons.2 ⟨fun e he => ?_, ih hrest.2⟩
        rcases fst_of_mem_insertEntry he with hk | he
        · rw [hk]
          exact Std.lt_of_le_of_ne (Std.not_lt.1 hnlt) (Ne.symm hne)
        · exact hrest.1 e he

/-- The context with one more value; a value of the same name gives way. -/
def insert (context : Context) (key value : String) : Context :=
  ⟨insertEntry key value context.entries, sorted_insertEntry key value context.sorted⟩

/-- The context of some values, the later ones winning over earlier ones of the same name. -/
def ofList (entries : List (String × String)) : Context :=
  entries.foldl (fun context entry => context.insert entry.1 entry.2) empty

end Context

structure ErrorInfo where
  code : String
  message : String
  context : Context
  hint : Option String
deriving DecidableEq

inductive Family where
  | formula
  | evaluation
  | config
  | wire
  | format
deriving DecidableEq, Repr

structure Error where
  family : Family
  info : ErrorInfo
deriving DecidableEq

def ErrorInfo.new (code message : String) : ErrorInfo :=
  ⟨code, message, .empty, none⟩

def ErrorInfo.withContext (info : ErrorInfo) (key value : String) : ErrorInfo :=
  { info with context := info.context.insert key value }

def ErrorInfo.withHint (info : ErrorInfo) (hint : String) : ErrorInfo :=
  { info with hint := some hint }

/-- The word with which the text of a report of this family begins. -/
def Family.word : Family → String
  | .formula => "formula"
  | .evaluation => "evaluation"
  | .config => "config"
  | .wire => "wire"
  | .format => "serde"

def Family.tag : Family → String
  | .formula => "Formula"
  | .evaluation => "Evaluation"
  | .config => "Config"
  | .wire => "Wire"
  | .format => "Serde"

def Family.ofTag? (tag : String) : Option Family :=
  [Family.formula, .evaluation, .config, .wire, .format].find? fun family => family.tag == tag

/-- The text of the context: nothing when it is empty. -/
def Context.text (context : Context) : String :=
  match context.entries with
  | [] => ""
  | entries =>
    " | context: [" ++ ", ".intercalate (entries.map fun entry => entry.1 ++ "=" ++ entry.2) ++ "]"

def ErrorInfo.text (info : ErrorInfo) : String :=
  info.message ++ " (code: " ++ info.code ++ ")" ++ info.context.text ++
    match info.hint with
    | none => ""
    | some hint => " | hint: " ++ hint

def Error.text (error : Error) : String :=
  error.family.word ++ " error: " ++ error.info.text

end HatCircle
