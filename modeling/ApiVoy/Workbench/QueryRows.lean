/-
# Query rows

The query of a URL is shown as rows, and the rows are written back into the URL. What is read is
the text behind the first question mark, up to the next one or the fragment; what is written is
encoded, so that neither of them occurs in it.
-/

import ApiVoy.Foundation.FormEncoding
import ApiVoy.Workbench.Editor

namespace ApiVoy.Workbench

open Foundation

namespace Editor

variable (url : List Char)

/-! ## The parts of a URL -/

def urlFragment : List Char := url.dropWhile (· ≠ '#')

def withoutFragment : List Char := url.takeWhile (· ≠ '#')

def urlBase : List Char := (withoutFragment url).takeWhile (· ≠ '?')

def queryText : List Char := ((withoutFragment url).splitOn '?')[1]?.getD []

def replaceQuery (query : List Char) : List Char :=
  urlBase url ++ (if query = [] then [] else '?' :: query) ++ urlFragment url

/-! ## Rows -/

def queryRowsFromUrl : List HeaderRow := headerRowsFromPairs (FormEncoding.parse (queryText url))

def urlWithQueryRows (rows : List HeaderRow) : List Char :=
  replaceQuery url (FormEncoding.serialize ((sentRows rows).map fun row => (row.key, row.value)))

/-! ## Replacing the query -/

theorem hash_not_mem_withoutFragment : '#' ∉ withoutFragment url := by
  intro h
  rw [withoutFragment] at h
  simpa using List.mem_takeWhile_imp h

theorem hash_not_mem_urlBase : '#' ∉ urlBase url := fun h =>
  hash_not_mem_withoutFragment url ((List.takeWhile_sublist _).subset h)

theorem question_not_mem_urlBase : '?' ∉ urlBase url := by
  intro h
  rw [urlBase] at h
  simpa using List.mem_takeWhile_imp h

theorem withoutFragment_urlFragment : withoutFragment (urlFragment url) = [] := by
  induction url with
  | nil => rfl
  | cons c url ih =>
    rw [urlFragment, List.dropWhile_cons]
    split
    · exact ih
    · next h => rw [withoutFragment, List.takeWhile_cons, if_neg h]

section Replacing

variable {query : List Char} (hhash : '#' ∉ query) (hquestion : '?' ∉ query)
include hhash

theorem withoutFragment_replaceQuery :
    withoutFragment (replaceQuery url query) =
      urlBase url ++ if query = [] then [] else '?' :: query := by
  have hplain : ∀ c ∈ urlBase url ++ (if query = [] then [] else '?' :: query),
      decide (c ≠ '#') = true := by
    intro c hc
    refine decide_eq_true fun h => ?_
    subst h
    obtain hbase | hquery := List.mem_append.mp hc
    · exact hash_not_mem_urlBase url hbase
    · split at hquery
      · cases hquery
      · exact hhash ((List.mem_cons.mp hquery).resolve_left (by decide))
  rw [withoutFragment, replaceQuery, List.takeWhile_append_of_pos hplain, ← withoutFragment,
    withoutFragment_urlFragment, List.append_nil]

theorem urlFragment_replaceQuery : urlFragment (replaceQuery url query) = urlFragment url := by
  have hsplit := List.takeWhile_append_dropWhile (p := (· ≠ '#')) (l := replaceQuery url query)
  rw [← withoutFragment, withoutFragment_replaceQuery url hhash] at hsplit
  exact List.append_cancel_left hsplit

theorem urlBase_replaceQuery : urlBase (replaceQuery url query) = urlBase url := by
  have hbase : ∀ c ∈ urlBase url, decide (c ≠ '?') = true := fun c hc =>
    decide_eq_true fun h => question_not_mem_urlBase url (h ▸ hc)
  rw [urlBase, withoutFragment_replaceQuery url hhash, List.takeWhile_append_of_pos hbase]
  split <;> simp

include hquestion in
theorem queryText_replaceQuery : queryText (replaceQuery url query) = query := by
  have hbase := question_not_mem_urlBase url
  rw [queryText, withoutFragment_replaceQuery url hhash]
  split
  · next hnil =>
    rw [List.append_nil, List.splitOn_eq_singleton hbase, hnil]
    rfl
  · rw [List.splitOn_append_cons_self_of_not_mem hbase, List.splitOn_eq_singleton hquestion]
    rfl

theorem replaceQuery_replaceQuery (next : List Char) :
    replaceQuery (replaceQuery url query) next = replaceQuery url next := by
  rw [replaceQuery, urlBase_replaceQuery url hhash, urlFragment_replaceQuery url hhash,
    replaceQuery]

end Replacing

/-! ## Writing rows -/

variable (rows : List HeaderRow)

/-- A row that is sent is the row of its name and value. -/
theorem map_createHeaderRow_sentRows :
    ((sentRows rows).map fun row => (row.key, row.value)).map
      (fun entry => createHeaderRow entry.1 entry.2) = sentRows rows := by
  rw [List.map_map]
  refine (List.map_congr_left fun row hrow => ?_).trans (List.map_id _)
  have hsent := (List.mem_filter.mp hrow).2
  rw [Bool.and_eq_true] at hsent
  obtain ⟨key, value, enabled⟩ := row
  obtain ⟨henabled, hname⟩ := hsent
  show createHeaderRow key value = ⟨key, value, enabled⟩
  rw [createHeaderRow, hname, Bool.true_or]
  exact congrArg _ henabled.symm

/-- Writing rows changes nothing but the query. The enabled rows with a name are read back, with
an empty one behind, what was written before has no effect on what is written next, and writing
what was read changes nothing. -/
theorem urlWithQueryRows_lawful :
    urlBase (urlWithQueryRows url rows) = urlBase url ∧
      urlFragment (urlWithQueryRows url rows) = urlFragment url ∧
      queryRowsFromUrl (urlWithQueryRows url rows) = sentRows rows ++ [createHeaderRow "" ""] ∧
      (∀ next, urlWithQueryRows (urlWithQueryRows url rows) next = urlWithQueryRows url next) ∧
      urlWithQueryRows (urlWithQueryRows url rows)
        (queryRowsFromUrl (urlWithQueryRows url rows)) = urlWithQueryRows url rows := by
  have hhash :
      '#' ∉ FormEncoding.serialize ((sentRows rows).map fun row => (row.key, row.value)) :=
    fun h => absurd (FormEncoding.mem_serialize h) (by decide)
  have hquestion :
      '?' ∉ FormEncoding.serialize ((sentRows rows).map fun row => (row.key, row.value)) :=
    fun h => absurd (FormEncoding.mem_serialize h) (by decide)
  have hread : queryRowsFromUrl (urlWithQueryRows url rows) =
      sentRows rows ++ [createHeaderRow "" ""] := by
    rw [queryRowsFromUrl, urlWithQueryRows, queryText_replaceQuery url hhash hquestion,
      FormEncoding.parse_serialize, headerRowsFromPairs, map_createHeaderRow_sentRows]
  have hnext : ∀ next, urlWithQueryRows (urlWithQueryRows url rows) next =
      urlWithQueryRows url next := fun next =>
    replaceQuery_replaceQuery url hhash _
  refine ⟨urlBase_replaceQuery url hhash, urlFragment_replaceQuery url hhash, hread,
    hnext, ?_⟩
  have hagain : sentRows (sentRows rows ++ [createHeaderRow "" ""]) = sentRows rows := by
    have hlast : sentRows [createHeaderRow "" ""] = [] := by decide
    have htwice : sentRows (sentRows rows) = sentRows rows := by
      simp only [sentRows, List.filter_filter, Bool.and_self]
    refine (List.filter_append ..).trans ?_
    exact (congrArg₂ (· ++ ·) htwice hlast).trans (List.append_nil _)
  rw [hnext, hread, urlWithQueryRows, hagain, urlWithQueryRows]

end Editor

end ApiVoy.Workbench
