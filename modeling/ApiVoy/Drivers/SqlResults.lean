/-
# The rows of a query

The rows of a result are shown as JSON objects whose members are named after the columns. What
a database keeps in a cell and what the library reads of it are two things: a cell is shown by
the one reading that the name of its type calls for. Beside what the driver reports stands what
a report should say, and the results for which the two are the same.
-/

import ApiVoy.Drivers.Sql
import Mathlib.Data.String.Basic

namespace ApiVoy.Drivers.Sql

open Foundation Domain Engine

/-! ## Results -/

/-- What the library reads of a value of the database; of NULL it reads nothing. A number that
JSON does not have is not read as one. -/
structure ValueLibrary (Value : Type) where
  isNull : Value → Bool
  readBool : Value → Option Bool
  readInt : Value → Option Int
  readFloat : Value → Option Rat
  readBytes : Value → Option Bytes
  readText : Value → Option String
  null_reads : ∀ value, isNull value = true → readBool value = none ∧ readInt value = none ∧
    readFloat value = none ∧ readBytes value = none ∧ readText value = none

/-- A cell of a result: the name of its type, and its value. -/
structure Cell (Value : Type) where
  typeName : String
  value : Value

/-- The result of a query. Every row has a cell for each column. -/
structure QueryResult (Value : Type) where
  names : List String
  rows : List (List (Cell Value))
  complete : ∀ row ∈ rows, row.length = names.length

section Results

variable {Value : Type} (library : ValueLibrary Value)

/-- A cell as the driver meets it. -/
def Cell.column (name : String) (cell : Cell Value) : Column where
  name := name
  typeName := cell.typeName
  bool := library.readBool cell.value
  int := library.readInt cell.value
  float := library.readFloat cell.value
  bytes := library.readBytes cell.value
  text := library.readText cell.value

def QueryResult.columnsOf (result : QueryResult Value) (row : List (Cell Value)) : List Column :=
  List.zipWith (Cell.column library) result.names row

/-- The rows of a result as they are fetched. -/
def QueryResult.fetched (result : QueryResult Value) : List Fetched :=
  result.rows.map fun row => .row (result.columnsOf library row)

/-! ## What a report should say -/

/-- A value of the database, shown in JSON. Only NULL is shown as null. -/
inductive Shows (codecs : Codecs) (value : Value) : Json → Prop
  | null (h : library.isNull value = true) : Shows codecs value .null
  | bool {b : Bool} (h : library.readBool value = some b) : Shows codecs value (.bool b)
  | int {n : Int} (h : library.readInt value = some n) : Shows codecs value (.num n)
  | float {q : Rat} (h : library.readFloat value = some q) : Shows codecs value (.num q)
  | bytes {bytes : Bytes} (h : library.readBytes value = some bytes) :
      Shows codecs value (.obj [("base64", .str (codecs.encodeBase64 bytes))])
  | text {text : String} (h : library.readText value = some text) : Shows codecs value (.str text)

/-- An object has the value of every column of a row under the name of the column. -/
def ShowsRow (codecs : Codecs) (names : List String) (row : List (Cell Value)) (shown : Json) :
    Prop :=
  ∀ entry ∈ names.zip row, ∃ json, shown.get entry.1 = some json ∧
    Shows library codecs entry.2.value json

/-- A report of a result up to a limit: every value of the rows up to the limit, the names of the
columns in order, and whether there were more rows than the ones it has. -/
structure Faithful (codecs : Codecs) (result : QueryResult Value) (limit : Nat) (report : Json) :
    Prop where
  rows : ∃ shown, report.get "rows" = some (.arr shown) ∧
    List.Forall₂ (ShowsRow library codecs result.names) (result.rows.take limit) shown
  columns : report.get "columns" = some (.arr (result.names.map Json.str))
  truncated : report.get "truncated" =
    some (.bool (decide ((result.rows.take limit).length < result.rows.length)))

/-! ## What the driver can report -/

/-- How the driver reads a cell, by the name of its type. -/
inductive CellKind where
  | bool
  | int
  | float
  | bytes
  | text
  deriving DecidableEq

def cellKind (typeName : String) : CellKind :=
  let name := typeName.toList.map Char.toUpper
  let hasAny (parts : List String) : Bool := parts.any fun part => occursIn part.toList name
  if hasAny ["BOOL"] then .bool
  else if hasAny ["INT", "SERIAL"] then .int
  else if hasAny ["REAL", "FLOAT", "DOUBLE", "NUMERIC", "DECIMAL"] then .float
  else if hasAny ["BYTE", "BLOB", "BINARY"] then .bytes
  else .text

/-- The name of the type calls for a reading that the value has. A NULL has none, and is shown as
one unless it is read as text. -/
def Cell.Fits (cell : Cell Value) : Prop :=
  match cellKind cell.typeName with
  | .bool => library.isNull cell.value = true ∨ (library.readBool cell.value).isSome = true
  | .int => library.isNull cell.value = true ∨ (library.readInt cell.value).isSome = true
  | .float => library.isNull cell.value = true ∨ (library.readFloat cell.value).isSome = true
  | .bytes => library.isNull cell.value = true ∨ (library.readBytes cell.value).isSome = true
  | .text => (library.readText cell.value).isSome = true

/-- The results that the driver reports as they are: the columns come in the order of their names
and no two have the same one, a result without rows has no columns, the limit is not the number
of the rows, and the cells up to the limit fit. -/
structure Presentable (result : QueryResult Value) (limit : Nat) : Prop where
  sorted : result.names.Pairwise (· < ·)
  header : result.rows = [] → result.names = []
  unequal : result.rows.length ≠ limit
  cells : ∀ row ∈ result.rows.take limit, ∀ cell ∈ row, cell.Fits library

/-! ## Objects in the order of their names -/

theorem textLe_iff_not_lt (as bs : List Char) : textLe as bs = true ↔ ¬bs < as := by
  induction as generalizing bs with
  | nil => simp [textLe]
  | cons a as ih =>
    cases bs with
    | nil => simp [textLe]
    | cons b bs =>
      have hlt : a.toNat < b.toNat ↔ a < b := Iff.rfl
      rw [textLe, List.cons_lt_cons_iff, Bool.or_eq_true, Bool.and_eq_true, decide_eq_true_eq,
        decide_eq_true_eq, ih, Char.toNat_inj, hlt]
      rcases lt_trichotomy a b with h | h | h
      · simp [h, h.ne', h.not_gt]
      · subst h
        simp
      · simp [h, h.ne', h.not_gt]

theorem textLe_iff (a b : String) : textLe a.toList b.toList = true ↔ a ≤ b := by
  rw [textLe_iff_not_lt, ← String.lt_iff_toList_lt, not_lt]

variable {members : List (String × Json)}

/-- A name behind all others comes to the end. -/
theorem insertMember_of_lt {name : String} (value : Json)
    (h : ∀ key ∈ members.map Prod.fst, key < name) :
    insertMember name value members = members ++ [(name, value)] := by
  induction members with
  | nil => rfl
  | cons member members ih =>
    obtain ⟨other, old⟩ := member
    have hother : other < name := h other List.mem_cons_self
    have hle : ¬textLe name.toList other.toList = true := by
      rw [textLe_iff]
      exact not_le.mpr hother
    rw [insertMember, if_neg hother.ne', if_neg hle,
      ih fun key hkey => h key (List.mem_cons_of_mem _ hkey)]
    rfl

theorem mem_keys_insertMember {name key : String} {value : Json}
    (h : key ∈ (insertMember name value members).map Prod.fst) :
    key = name ∨ key ∈ members.map Prod.fst := by
  induction members with
  | nil => exact .inl (by simpa [insertMember] using h)
  | cons member members ih =>
    obtain ⟨other, old⟩ := member
    rw [insertMember] at h
    split at h
    · rcases List.mem_cons.mp h with h | h
      · exact .inl h
      · exact .inr (List.mem_cons_of_mem _ h)
    · split at h
      · rcases List.mem_cons.mp h with h | h
        · exact .inl h
        · exact .inr h
      · rcases List.mem_cons.mp h with h | h
        · exact .inr (h ▸ List.mem_cons_self)
        · exact (ih h).imp_right (List.mem_cons_of_mem _)

theorem sorted_insertMember (name : String) (value : Json)
    (h : (members.map Prod.fst).Pairwise (· < ·)) :
    ((insertMember name value members).map Prod.fst).Pairwise (· < ·) := by
  induction members with
  | nil => exact List.pairwise_singleton _ _
  | cons member members ih =>
    obtain ⟨other, old⟩ := member
    obtain ⟨hfirst, hrest⟩ := List.pairwise_cons.mp h
    rw [insertMember]
    split
    case isTrue heq => exact List.pairwise_cons.mpr ⟨heq ▸ hfirst, hrest⟩
    case isFalse hne =>
      split
      case isTrue hle =>
        have hlt : name < other := lt_of_le_of_ne ((textLe_iff name other).mp hle) hne
        refine List.pairwise_cons.mpr ⟨fun key hkey => ?_, h⟩
        rcases List.mem_cons.mp hkey with rfl | hkey
        · exact hlt
        · exact hlt.trans (hfirst key hkey)
      case isFalse hnot =>
        refine List.pairwise_cons.mpr ⟨fun key hkey => ?_, ih hrest⟩
        rcases mem_keys_insertMember hkey with rfl | hkey
        · exact not_le.mp fun hle => hnot ((textLe_iff _ _).mpr hle)
        · exact hfirst key hkey

variable (codecs : Codecs)

/-- The object of a row has its columns in the order of their names. -/
theorem sorted_rowMembers (columns : List Column) :
    ((rowMembers codecs columns).map Prod.fst).Pairwise (· < ·) := by
  rw [rowMembers]
  suffices h : ∀ members : List (String × Json), (members.map Prod.fst).Pairwise (· < ·) →
      ((columns.foldl (fun members column =>
        insertMember column.name (cell codecs column) members) members).map Prod.fst).Pairwise
          (· < ·) from h [] List.Pairwise.nil
  induction columns with
  | nil => exact fun members h => h
  | cons column columns ih => exact fun members h => ih _ (sorted_insertMember _ _ h)

/-- Columns in the order of their names are the members of the object. -/
theorem rowMembers_of_sorted {columns : List Column}
    (h : (columns.map Column.name).Pairwise (· < ·)) :
    rowMembers codecs columns = columns.map fun column => (column.name, cell codecs column) := by
  rw [rowMembers]
  suffices hall : ∀ members : List (String × Json),
      (∀ key ∈ members.map Prod.fst, ∀ column ∈ columns, key < column.name) →
      columns.foldl (fun members column =>
        insertMember column.name (cell codecs column) members) members =
          members ++ columns.map fun column => (column.name, cell codecs column) from
    hall [] fun key hkey => (List.not_mem_nil hkey).elim
  induction columns with
  | nil => exact fun members _ => (List.append_nil members).symm
  | cons column columns ih =>
    intro members hmembers
    obtain ⟨hfirst, hrest⟩ := List.pairwise_cons.mp h
    have hinsert := insertMember_of_lt (cell codecs column) fun key hkey =>
      hmembers key hkey column List.mem_cons_self
    rw [List.foldl_cons, hinsert, ih hrest]
    · rw [List.append_assoc]
      rfl
    · intro key hkey other hother
      rw [List.map_append, List.mem_append] at hkey
      rcases hkey with hkey | hkey
      · exact hmembers key hkey other (List.mem_cons_of_mem _ hother)
      · rw [List.mem_singleton.mp hkey]
        exact hfirst _ (List.mem_map_of_mem hother)

/-! ## Cells -/

/-- How the driver shows a cell, by its kind. -/
theorem cell_column (name : String) (c : Cell Value) :
    cell codecs (c.column library name) = match cellKind c.typeName with
      | .bool => ((library.readBool c.value).map Json.bool).getD .null
      | .int => ((library.readInt c.value).map fun n => Json.num n).getD .null
      | .float => ((library.readFloat c.value).map Json.num).getD .null
      | .bytes => ((library.readBytes c.value).map fun bytes =>
        .obj [("base64", .str (codecs.encodeBase64 bytes))]).getD .null
      | .text => ((library.readText c.value).map Json.str).getD
          (.obj [("unsupportedType", .str (String.ofList (c.typeName.toList.map Char.toUpper)))]) := by
  unfold cell cellKind
  dsimp only [Cell.column]
  split
  · rfl
  · split
    · rfl
    · split
      · rfl
      · split
        · rfl
        · rfl

theorem shows_null_iff {value : Value} :
    Shows library codecs value .null ↔ library.isNull value = true :=
  ⟨fun h => by cases h; assumption, .null⟩

/-- The cells that are shown are the ones that fit. -/
theorem shows_cell_iff (name : String) (c : Cell Value) :
    Shows library codecs c.value (cell codecs (c.column library name)) ↔ c.Fits library := by
  have hnull := library.null_reads c.value
  rw [cell_column, Cell.Fits]
  cases cellKind c.typeName with
  | bool =>
    cases hread : library.readBool c.value with
    | none => exact (shows_null_iff library codecs).trans (by simp)
    | some b => exact iff_of_true (.bool hread) (.inr rfl)
  | int =>
    cases hread : library.readInt c.value with
    | none => exact (shows_null_iff library codecs).trans (by simp)
    | some n => exact iff_of_true (.int hread) (.inr rfl)
  | float =>
    cases hread : library.readFloat c.value with
    | none => exact (shows_null_iff library codecs).trans (by simp)
    | some q => exact iff_of_true (.float hread) (.inr rfl)
  | bytes =>
    cases hread : library.readBytes c.value with
    | none => exact (shows_null_iff library codecs).trans (by simp)
    | some bytes => exact iff_of_true (.bytes hread) (.inr rfl)
  | text =>
    cases hread : library.readText c.value with
    | none =>
      refine iff_of_false (fun hshows => ?_) (by simp)
      generalize hjson : (Option.map Json.str none).getD (Json.obj [("unsupportedType",
        .str (String.ofList (c.typeName.toList.map Char.toUpper)))]) = json at hshows
      cases hshows with
      | bytes h => simp at hjson
      | _ => simp at hjson
    | some text => exact iff_of_true (.text hread) rfl

/-! ## The rows of a result -/

/-- Without a failure or an interruption the rows up to the limit are fetched. -/
theorem fetchRows_rows (limit : Nat) (rows : List (List Column))
    (output : List (List (String × Json))) :
    fetchRows codecs limit none output (rows.map Fetched.row) = some (.ok
      (output ++ (rows.take (limit - output.length)).map (rowMembers codecs))) := by
  induction rows generalizing output with
  | nil =>
    rw [List.map_nil, fetchRows, List.take_nil, List.map_nil, List.append_nil]
    simp
  | cons columns rows ih =>
    rw [List.map_cons, fetchRows]
    by_cases hlimit : output.length < limit
    · obtain ⟨room, hroom⟩ : ∃ room, limit - output.length = room + 1 :=
        ⟨limit - output.length - 1, by omega⟩
      have hrest : limit - (output ++ [rowMembers codecs columns]).length = room := by
        rw [List.length_append, List.length_singleton]
        omega
      rw [if_pos hlimit, if_neg (by simp)]
      dsimp only [Option.map_none]
      rw [ih, hrest, hroom, List.take_succ_cons, List.map_cons, List.append_assoc]
      rfl
    · have hnone : limit - output.length = 0 := by omega
      rw [if_neg hlimit, hnone, List.take_zero, List.map_nil, List.append_nil]

theorem get_of_sorted {name : String} {json : Json}
    (hsorted : (members.map Prod.fst).Pairwise (· < ·)) (hmem : (name, json) ∈ members) :
    (Json.obj members).get name = some json := by
  rw [Json.get, Json.member?]
  induction members with
  | nil => cases hmem
  | cons member members ih =>
    obtain ⟨key, value⟩ := member
    obtain ⟨hfirst, hrest⟩ := List.pairwise_cons.mp hsorted
    rw [Json.memberValues_cons]
    rcases List.mem_cons.mp hmem with heq | hmem
    · cases heq
      have hnone : Json.memberValues name members = [] := by
        rw [Json.memberValues, List.map_eq_nil_iff, List.filter_eq_nil_iff]
        intro entry hentry
        have hlt := hfirst entry.1 (List.mem_map_of_mem hentry)
        simpa using hlt.ne'
      rw [if_pos rfl, hnone]
      rfl
    · have hlt := hfirst name (List.mem_map_of_mem hmem)
      rw [if_neg hlt.ne, ih hrest hmem]

variable {result : QueryResult Value} {row : List (Cell Value)}

theorem map_name_columnsOf (hrow : row ∈ result.rows) :
    (result.columnsOf library row).map Column.name = result.names := by
  have hlength := result.complete row hrow
  have hnames : (fun name c => (Cell.column library name c).name) =
      fun (name : String) (_ : Cell Value) => name := rfl
  rw [QueryResult.columnsOf, List.map_zipWith, hnames, ← List.map_uncurry_zip_eq_zipWith]
  exact List.map_fst_zip hlength.ge

/-- When the columns come in the order of their names, a row is shown if its cells fit. -/
theorem showsRow_iff (hsorted : result.names.Pairwise (· < ·)) (hrow : row ∈ result.rows) :
    ShowsRow library codecs result.names row
        (.obj (rowMembers codecs (result.columnsOf library row))) ↔
      ∀ c ∈ row, c.Fits library := by
  have hlength := result.complete row hrow
  have hcolumns : ((result.columnsOf library row).map Column.name).Pairwise (· < ·) := by
    rw [map_name_columnsOf library hrow]
    exact hsorted
  have hget {name : String} {c : Cell Value} (hentry : (name, c) ∈ result.names.zip row) :
      (Json.obj (rowMembers codecs (result.columnsOf library row))).get name =
        some (cell codecs (c.column library name)) := by
    refine get_of_sorted (sorted_rowMembers codecs _) ?_
    rw [rowMembers_of_sorted codecs hcolumns, QueryResult.columnsOf, ← List.map_uncurry_zip_eq_zipWith,
      List.map_map]
    exact List.mem_map.mpr ⟨(name, c), hentry, rfl⟩
  constructor
  · intro hshows c hc
    obtain ⟨name, hentry⟩ : ∃ name, (name, c) ∈ result.names.zip row := by
      have hcells := List.map_snd_zip hlength.le
      rw [← hcells] at hc
      obtain ⟨entry, hentry, rfl⟩ := List.mem_map.mp hc
      exact ⟨entry.1, hentry⟩
    obtain ⟨json, hjson, hshown⟩ := hshows _ hentry
    cases (hget hentry).symm.trans hjson
    exact (shows_cell_iff library codecs name c).mp hshown
  · intro hfits entry hentry
    exact ⟨_, hget hentry,
      (shows_cell_iff library codecs entry.1 entry.2).mpr (hfits _ (List.of_mem_zip hentry).2)⟩

/-! ## Reports -/

/-- What the driver makes of the rows of a result. -/
def QueryResult.output (result : QueryResult Value) (limit : Nat) : List (List (String × Json)) :=
  (result.rows.take limit).map fun row => rowMembers codecs (result.columnsOf library row)

theorem rows_faithful_iff (limit : Nat) (hsorted : result.names.Pairwise (· < ·)) :
    List.Forall₂ (ShowsRow library codecs result.names) (result.rows.take limit)
        ((result.output library codecs limit).map Json.obj) ↔
      ∀ row ∈ result.rows.take limit, ∀ c ∈ row, c.Fits library := by
  rw [QueryResult.output, List.map_map, List.forall₂_map_right_iff, List.forall₂_same]
  exact forall₂_congr fun row hrow =>
    showsRow_iff library codecs hsorted (List.mem_of_mem_take hrow)

/-- The columns are named in order if there is a row to name them and their order is the one of
the names. -/
theorem columns_faithful_iff {limit : Nat} (hlimit : 0 < limit) :
    (((result.output library codecs limit).head?.getD []).map fun member =>
        Json.str member.1) = result.names.map Json.str ↔
      result.names.Pairwise (· < ·) ∧ (result.rows = [] → result.names = []) := by
  obtain ⟨room, rfl⟩ : ∃ room, limit = room + 1 := ⟨limit - 1, by omega⟩
  obtain ⟨names, rows, hcomplete⟩ := result
  cases rows with
  | nil =>
    dsimp only [QueryResult.output]
    rw [List.take_nil, List.map_nil, List.head?_nil, Option.getD_none, List.map_nil]
    constructor
    · intro h
      have hnames : names = [] := List.map_eq_nil_iff.mp h.symm
      exact ⟨hnames ▸ List.Pairwise.nil, fun _ => hnames⟩
    · rintro ⟨-, h⟩
      rw [h rfl]
      rfl
  | cons row rows =>
    have hmap : ((⟨names, row :: rows, hcomplete⟩ : QueryResult Value).columnsOf library
        row).map Column.name = names := map_name_columnsOf library List.mem_cons_self
    dsimp only [QueryResult.output]
    rw [List.take_succ_cons, List.map_cons, List.head?_cons, Option.getD_some]
    rw [show (fun member : String × Json => Json.str member.1) = Json.str ∘ Prod.fst from rfl,
      ← List.map_map, (List.map_injective_iff.mpr fun _ _ h => Json.str.inj h).eq_iff]
    constructor
    · intro h
      exact ⟨h ▸ sorted_rowMembers codecs _, fun hnone => by cases hnone⟩
    · rintro ⟨hsorted, -⟩
      rw [rowMembers_of_sorted codecs (hmap.symm ▸ hsorted), List.map_map]
      exact hmap

theorem truncated_faithful_iff (result : QueryResult Value) (limit : Nat) :
    ((result.output library codecs limit).length = limit ↔
        (result.rows.take limit).length < result.rows.length) ↔ result.rows.length ≠ limit := by
  rw [QueryResult.output, List.length_map, List.length_take]
  omega

variable {payload : SqlRequest}

theorem faithful_iff (hlimit : 0 < payload.rowLimit) :
    Faithful library codecs result payload.rowLimit
        (queryValue payload (result.output library codecs payload.rowLimit)) ↔
      Presentable library result payload.rowLimit := by
  have hrows : (queryValue payload (result.output library codecs payload.rowLimit)).get "rows" =
      some (.arr ((result.output library codecs payload.rowLimit).map Json.obj)) := by
    simp [queryValue, Json.get, Json.member?]
  have hcolumns : (queryValue payload (result.output library codecs payload.rowLimit)).get
      "columns" = some (.arr (((result.output library codecs payload.rowLimit).head?.getD []).map
        fun member => Json.str member.1)) := by
    simp [queryValue, Json.get, Json.member?]
  have htruncated : (queryValue payload (result.output library codecs payload.rowLimit)).get
      "truncated" = some (.bool
        (decide ((result.output library codecs payload.rowLimit).length = payload.rowLimit))) := by
    simp [queryValue, Json.get, Json.member?]
  constructor
  · intro h
    have hnamed := h.columns
    rw [hcolumns, Option.some_inj, Json.arr.injEq,
      columns_faithful_iff library codecs hlimit] at hnamed
    have hflag := h.truncated
    rw [htruncated, Option.some_inj, Json.bool.injEq, decide_eq_decide,
      truncated_faithful_iff library codecs] at hflag
    obtain ⟨shown, hshown, hall⟩ := h.rows
    cases hrows.symm.trans hshown
    exact ⟨hnamed.1, hnamed.2, hflag, (rows_faithful_iff library codecs _ hnamed.1).mp hall⟩
  · rintro ⟨hsorted, hheader, hunequal, hcells⟩
    refine ⟨⟨_, hrows, (rows_faithful_iff library codecs _ hsorted).mpr hcells⟩, ?_, ?_⟩
    · rw [hcolumns, (columns_faithful_iff library codecs hlimit).mpr ⟨hsorted, hheader⟩]
    · rw [htruncated, Option.some_inj, Json.bool.injEq, decide_eq_decide,
        truncated_faithful_iff library codecs]
      exact hunequal

variable {Url : Type} {urls : UrlLibrary Url}

/-- A database that answers a query with a result, and is not interrupted. -/
structure Answers (result : QueryResult Value) (db : Database) : Prop where
  connecting : db.connecting = .connected
  acquiring : db.acquiring = .ok ()
  beginning : db.beginning = .ok ()
  rows : db.rows = result.fetched library
  interruption : db.interruption = none
  committing : db.committing = .ok ()

variable {library codecs}

theorem operation_of_answers {db : Database} (hquery : queryLike payload.sql = true)
    (hbind : bind payload.parameters = .ok ()) (h : Answers library result db) :
    operation codecs payload db = some (.ok
      (queryValue payload (result.output library codecs payload.rowLimit))) := by
  have hpolls : db.polls = none := by rw [Database.polls, h.interruption, Option.map_none]
  have hfetched : db.rows = (result.rows.map (result.columnsOf library)).map Fetched.row := by
    rw [h.rows, QueryResult.fetched, List.map_map]
    rfl
  rw [operation, hpolls, if_neg (by simp), hbind]
  dsimp only
  rw [if_pos hquery, hfetched, fetchRows_rows, List.nil_append, List.length_nil, Nat.sub_zero,
    QueryResult.output, ← List.map_take, List.map_map]
  rfl

theorem mem_events_report (info : RunInfo) (request : RequestEnvelope) (value : Json)
    (session : Session Database) : responseChunk codecs (codecs.pretty value) ∈
      ((report codecs info request value).run session).2.events := by
  change responseChunk codecs (codecs.pretty value) ∈
    (session.events ++ [responseChunk codecs (codecs.pretty value)]) ++ [_]
  simp

/-- A run on a database that answers reports what comes of the statement. -/
theorem mem_events_of_answers {info : RunInfo} {request : RequestEnvelope} {db : Database}
    {value : Json} (hdecode : decode urls codecs request = .ok payload) (h : Answers library result db)
    (hoperation : operation codecs payload db = some (.ok value)) :
    responseChunk codecs (codecs.pretty value) ∈
      ((execute codecs urls info request).run ⟨db, []⟩).2.events := by
  have hafter (session : Session Database) (hsession : session.peer = db ∨
      session.peer = db.note .start true) : responseChunk codecs (codecs.pretty value) ∈
      ((afterOpening codecs info request payload).run session).2.events := by
    have hsame : operation codecs payload session.peer = some (.ok value) := by
      rcases hsession with heq | heq <;> rw [heq] <;> exact hoperation
    have hcommit : (noteStatement codecs payload session.peer).committing = .ok () := by
      rw [noteStatement]
      rcases hsession with heq | heq <;> rw [heq] <;> split <;> exact h.committing
    rw [afterOpening, Fallible.run_bind, run_emit]
    dsimp only
    rw [Fallible.run_bind, run_emit]
    dsimp only
    rw [Fallible.run_bind, run_race]
    dsimp only
    rw [hsame]
    dsimp only
    cases payload.transactional with
    | false => exact mem_events_report info request value _
    | true =>
      rw [if_pos rfl, Fallible.run_bind, run_send]
      dsimp only
      rw [hcommit]
      exact mem_events_report info request value _
  rw [execute, Fallible.run_bind, run_ofExcept, hdecode]
  dsimp only
  rw [Fallible.run_bind, run_emit]
  dsimp only
  rw [Fallible.run_bind, run_connect, h.connecting]
  dsimp only
  rw [Fallible.run_bind, run_acquire, h.acquiring]
  dsimp only
  cases htransactional : payload.transactional with
  | false =>
    have hrest := hafter ⟨db, [running .connect]⟩ (.inl rfl)
    rw [afterOpening, htransactional] at hrest
    exact hrest
  | true =>
    have hrest := hafter ⟨db.note .start true, [running .connect]⟩ (.inr rfl)
    rw [afterOpening, htransactional] at hrest
    rw [if_pos rfl, Fallible.run_bind, run_send, h.beginning]
    exact hrest

/-- A run reports a result as it is exactly when the driver can present it. -/
theorem execute_faithful_iff {info : RunInfo} {request : RequestEnvelope} {payload : SqlRequest}
    {result : QueryResult Value} {db : Database} (hdecode : decode urls codecs request = .ok payload)
    (hquery : queryLike payload.sql = true) (hbind : bind payload.parameters = .ok ())
    (h : Answers library result db) :
    ∃ value, operation codecs payload db = some (.ok value) ∧
      responseChunk codecs (codecs.pretty value) ∈
        ((execute codecs urls info request).run ⟨db, []⟩).2.events ∧
      (Faithful library codecs result payload.rowLimit value ↔
        Presentable library result payload.rowLimit) := by
  obtain ⟨-, -, -, -, -, -, -, -, -, hlimit⟩ := exists_of_decode hdecode
  have hoperation : operation codecs payload db = _ := operation_of_answers hquery hbind h
  exact ⟨_, hoperation, mem_events_of_answers hdecode h hoperation,
    faithful_iff library codecs hlimit⟩

end Results

/-! ### Results of a sample query -/

/-- NULL, an integer or a text. -/
abbrev SampleValue := Option (Int ⊕ String)

def sampleValues : ValueLibrary SampleValue where
  isNull := Option.isNone
  readBool _ := none
  readInt value := value.bind Sum.getLeft?
  readFloat _ := none
  readBytes _ := none
  readText value := value.bind Sum.getRight?
  null_reads
    | none, _ => ⟨rfl, rfl, rfl, rfl, rfl⟩

/-- A row of two cells under two names. -/
def sampleResult (names : List String) (first second : SampleValue) (hnames : names.length = 2) :
    QueryResult SampleValue where
  names := names
  rows := [[⟨"BIGINT", first⟩, ⟨"TEXT", second⟩]]
  complete row hrow := by
    rw [List.mem_singleton.mp hrow, hnames]
    rfl

theorem answers_sample (result : QueryResult SampleValue) :
    Answers sampleValues result
      { sampleDatabase none with rows := result.fetched sampleValues } :=
  ⟨rfl, rfl, rfl, rfl, rfl, rfl⟩

def sampleRow : QueryResult SampleValue :=
  sampleResult ["id", "name"] (some (.inl 7)) (some (.inr "seven")) rfl

/-- A row with an integer and a text is reported as it is. -/
theorem execute_faithful_sample :
    ∃ value, operation Codecs.unused samplePayload
        { sampleDatabase none with rows := sampleRow.fetched sampleValues } = some (.ok value) ∧
      Faithful sampleValues Codecs.unused sampleRow 500 value := by
  have hdecode : decode sampleUrls Codecs.unused sampleRequest = .ok samplePayload := by decide
  have hbind : bind samplePayload.parameters = .ok () := rfl
  obtain ⟨value, hvalue, -, hiff⟩ := @execute_faithful_iff SampleValue sampleValues Codecs.unused
    String sampleUrls sampleInfo sampleRequest samplePayload sampleRow _ hdecode (by decide) hbind
    (answers_sample sampleRow)
  refine ⟨value, hvalue, hiff.mpr ⟨by decide, by decide, by decide, fun row hrow c hc => ?_⟩⟩
  rw [List.mem_singleton.mp hrow] at hc
  rcases List.mem_pair.mp hc with rfl | rfl
  · exact .inr rfl
  · exact rfl

/-- Of two columns with the same name one is lost. -/
theorem execute_faithful_not :
    ¬∀ (library : ValueLibrary SampleValue) (codecs : Codecs) (urls : UrlLibrary String)
      (request : RequestEnvelope) (payload : SqlRequest) (result : QueryResult SampleValue)
      (db : Database), decode urls codecs request = .ok payload → queryLike payload.sql = true →
      bind payload.parameters = .ok () → Answers library result db →
      ∃ value, operation codecs payload db = some (.ok value) ∧
        Faithful library codecs result payload.rowLimit value := by
  intro h
  have hanswers := answers_sample (sampleResult ["id", "id"] (some (.inl 7)) none rfl)
  obtain ⟨value, hvalue, hfaithful⟩ := h sampleValues Codecs.unused sampleUrls sampleRequest
    samplePayload _ _ (by decide) (by decide) (by decide) hanswers
  cases (operation_of_answers (by decide) (by decide) hanswers).symm.trans hvalue
  have hpresentable := (faithful_iff sampleValues Codecs.unused (by decide)).mp hfaithful
  exact absurd hpresentable.sorted (by decide)

end ApiVoy.Drivers.Sql
