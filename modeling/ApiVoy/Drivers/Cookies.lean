/-
# Deleting cookies

The jar of the HTTP driver has no operation that removes a cookie. The driver removes the cookies
of a name from an address by setting cookies of that name that have expired, for the paths and the
domains that it tries. A cookie stays if its path or its domain is not among them; and a cookie
goes that is found there but is not one of the address.
-/

import ApiVoy.Engine.Outcome
import ApiVoy.Foundation.Cookies
import Mathlib.Data.Char
import Mathlib.Data.List.Destutter
import Mathlib.Data.List.Lex

namespace ApiVoy.Drivers.Cookies

open Foundation Foundation.Cookies Engine

/-! ## Jars -/

/-- A jar of cookies, as the HTTP library has it. -/
structure JarLibrary (Jar : Type) where
  parse : String → Except String WebAddress
  cookies : Jar → List Cookie
  addCookieStr : List Char → WebAddress → Jar → Jar

/-- The jar keeps to the rules for cookies: a text that has expired removes the cookie that it is
about, and nothing else. -/
def KeepsRules {Jar : Type} (library : JarLibrary Jar) (rejects : List Char → Bool) : Prop :=
  ∀ text address jar, isExpired text = true →
    library.cookies (library.addCookieStr text address jar) =
      (library.cookies jar).filter fun cookie => keyOf rejects address text != some cookie.key

/-! ## The driver -/

/-- The paths to try, with and without a slash at their end. -/
def addPaths : List (List Char) → List Char → List (List Char) → List (List Char)
  | paths, _, [] => paths
  | paths, path, segment :: segments =>
    addPaths (paths ++ [path ++ '/' :: segment, path ++ '/' :: segment ++ ['/']])
      (path ++ '/' :: segment) segments

def segments (path : List Char) : List (List Char) := (path.splitOn '/').filter (· ≠ [])

def pathsFor (path : List Char) : List (List Char) :=
  ((addPaths [['/']] [] (segments path)).mergeSort fun a b => decide (a ≤ b)).destutter (· ≠ ·)

/-- The host and the domains above it, but for the last label alone. -/
def domainsFor (host : Option Host) : List (List Char) :=
  match host with
  | none => []
  | some host =>
    let labels := host.text.splitOn '.'
    (List.range (labels.length - 1)).map fun offset => ['.'].intercalate (labels.drop offset)

def expiring (name path : List Char) (domain : Option (List Char)) : List Char :=
  name ++ "=; Path=".toList ++ path ++
    (match domain with
      | none => []
      | some domain => "; Domain=".toList ++ domain) ++ "; Max-Age=0".toList

/-- The texts that are set, in their order. -/
def deletions (address : WebAddress) (name : List Char) : List (List Char) :=
  (pathsFor address.path).flatMap fun path =>
    expiring name path none :: (domainsFor address.host).map fun domain =>
      expiring name path (some domain)

section Deleting

variable {Jar : Type} (library : JarLibrary Jar)

def deleteCookie (url name : String) (jar : Jar) : Except DriverError Unit × Jar :=
  match library.parse url with
  | .error e => (.error (.validation e), jar)
  | .ok address =>
    (.ok (), (deletions address name.toList).foldl
      (fun jar text => library.addCookieStr text address jar) jar)

end Deleting

/-! ## What is tried -/

def trail (segments : List (List Char)) : List Char := segments.flatMap fun segment => '/' :: segment

/-- A path made of the first segments of another one, empty segments left out. -/
def IsTrail (path tried : List Char) : Prop :=
  ∃ kept, kept <+: segments path ∧
    (tried = trail kept ++ ['/'] ∨ kept ≠ [] ∧ tried = trail kept)

/-- A domain of more than one label that is the host or lies above it. -/
def IsParent (host domain : List Char) : Prop :=
  '.' ∈ domain ∧ (domain = host ∨ ∃ before, host = before ++ '.' :: domain)

@[simp]
theorem trail_cons (segment : List Char) (segments : List (List Char)) :
    trail (segment :: segments) = '/' :: segment ++ trail segments := rfl

theorem mem_addPaths {paths : List (List Char)} {path tried : List Char}
    {segments : List (List Char)} :
    tried ∈ addPaths paths path segments ↔ tried ∈ paths ∨ ∃ kept, kept ≠ [] ∧
      kept <+: segments ∧ (tried = path ++ trail kept ++ ['/'] ∨ tried = path ++ trail kept) := by
  induction segments generalizing paths path with
  | nil =>
    refine ⟨.inl, fun h => h.resolve_right ?_⟩
    rintro ⟨kept, hne, hkept, -⟩
    exact hne (List.prefix_nil.mp hkept)
  | cons segment segments ih =>
    rw [addPaths, ih, List.mem_append, or_assoc]
    refine or_congr_right ?_
    have hpath (rest : List (List Char)) : path ++ trail (segment :: rest) =
        path ++ '/' :: segment ++ trail rest := by simp
    constructor
    · rintro (htried | ⟨kept, -, hkept, htried⟩)
      · refine ⟨[segment], List.cons_ne_nil _ _, ⟨segments, rfl⟩, ?_⟩
        simpa [trail, or_comm] using htried
      · refine ⟨segment :: kept, List.cons_ne_nil _ _, ?_, ?_⟩
        · exact List.prefix_cons_inj segment |>.mpr hkept
        · rw [hpath]
          exact htried
    · rintro ⟨kept, hne, hkept, htried⟩
      obtain rfl | ⟨rest, rfl, hrest⟩ := List.prefix_cons_iff.mp hkept
      · exact absurd rfl hne
      · rw [hpath] at htried
        by_cases hnil : rest = []
        · subst hnil
          refine .inl ?_
          simpa [trail, or_comm] using htried
        · exact .inr ⟨rest, hnil, hrest, htried⟩

theorem mem_destutter'_ne {α : Type} [DecidableEq α] {a first : α} {items : List α} :
    a ∈ items.destutter' (· ≠ ·) first ↔ a = first ∨ a ∈ items := by
  induction items generalizing first with
  | nil => simp
  | cons item items ih =>
    by_cases h : first ≠ item
    · rw [List.destutter'_cons_pos _ h, List.mem_cons, ih, List.mem_cons]
    · rw [List.destutter'_cons_neg _ h, ih, List.mem_cons, not_not.mp h]
      exact ⟨.inr, fun h => h.elim .inl id⟩

theorem mem_destutter_ne {α : Type} [DecidableEq α] {a : α} {items : List α} :
    a ∈ items.destutter (· ≠ ·) ↔ a ∈ items := by
  cases items with
  | nil => rfl
  | cons first items => rw [List.destutter_cons', mem_destutter'_ne, List.mem_cons]

theorem mem_pathsFor {path tried : List Char} : tried ∈ pathsFor path ↔ IsTrail path tried := by
  rw [pathsFor, mem_destutter_ne, List.mem_mergeSort, mem_addPaths, IsTrail, List.mem_singleton]
  constructor
  · rintro (rfl | ⟨kept, hne, hkept, htried⟩)
    · exact ⟨[], List.nil_prefix, .inl rfl⟩
    · exact ⟨kept, hkept, htried.imp_right fun h => ⟨hne, h⟩⟩
  · rintro ⟨kept, hkept, htried⟩
    by_cases hne : kept = []
    · subst hne
      exact .inl (htried.resolve_right fun h => h.1 rfl)
    · exact .inr ⟨kept, hne, hkept, htried.imp_right And.right⟩

variable {c : Char}

theorem intercalate_append {first second : List (List Char)} (hfirst : first ≠ [])
    (hsecond : second ≠ []) : [c].intercalate (first ++ second) =
      [c].intercalate first ++ c :: [c].intercalate second := by
  induction first with
  | nil => exact absurd rfl hfirst
  | cons piece first ih =>
    rw [List.cons_append, List.intercalate_cons_of_ne_nil
      (List.append_ne_nil_of_right_ne_nil _ hsecond)]
    by_cases hnil : first = []
    · subst hnil
      simp
    · rw [ih hnil, List.intercalate_cons_of_ne_nil hnil]
      simp

variable {text : List Char}

theorem one_lt_length_splitOn (h : c ∈ text) : 1 < (text.splitOn c).length := by
  obtain ⟨before, behind, rfl⟩ := List.append_of_mem h
  have hbefore := List.length_pos_iff.mpr (List.splitOn_ne_nil c before)
  have hbehind := List.length_pos_iff.mpr (List.splitOn_ne_nil c behind)
  rw [List.splitOn_append_cons_self, List.length_append]
  omega

theorem mem_domainsFor {host : Host} {domain : List Char} :
    domain ∈ domainsFor (some host) ↔ IsParent host.text domain := by
  rw [domainsFor, List.mem_map, IsParent]
  constructor
  · rintro ⟨offset, hoffset, rfl⟩
    rw [List.mem_range] at hoffset
    have hrest : 1 < ((host.text.splitOn '.').drop offset).length := by
      rw [List.length_drop]
      omega
    have hdot : '.' ∈ ['.'].intercalate ((host.text.splitOn '.').drop offset) := by
      match hsplit : (host.text.splitOn '.').drop offset, hrest with
      | first :: second :: rest, _ =>
        rw [List.intercalate_cons_cons]
        simp
    refine ⟨hdot, ?_⟩
    by_cases hzero : offset = 0
    · subst hzero
      exact .inl (List.intercalate_splitOn '.')
    · refine .inr ⟨['.'].intercalate ((host.text.splitOn '.').take offset), ?_⟩
      rw [← intercalate_append, List.take_append_drop, List.intercalate_splitOn]
      · rw [← List.length_pos_iff, List.length_take]
        omega
      · rw [← List.length_pos_iff]
        omega
  · rintro ⟨hdot, heq⟩
    have hlong := one_lt_length_splitOn hdot
    rcases heq with rfl | ⟨before, hbefore⟩
    · exact ⟨0, List.mem_range.mpr (by omega), List.intercalate_splitOn '.'⟩
    · refine ⟨(before.splitOn '.').length, List.mem_range.mpr ?_, ?_⟩
      · rw [hbefore, List.splitOn_append_cons_self, List.length_append]
        omega
      · rw [hbefore, List.splitOn_append_cons_self, List.drop_left, List.intercalate_splitOn]

/-! ## What is deleted -/

/-- A cookie is one that the driver sets an expired cookie for. -/
def IsNamed (rejects : List Char → Bool) (address : WebAddress) (name : List Char)
    (cookie : Cookie) : Prop :=
  ∃ path domain, IsTrail address.path path ∧
    (∀ parent ∈ domain, ∃ host ∈ address.host, IsParent host.text parent) ∧
    keyOf rejects address (expiring name path domain) = some cookie.key

theorem mem_deletions {address : WebAddress} {name text : List Char} :
    text ∈ deletions address name ↔ ∃ path domain, IsTrail address.path path ∧
      (∀ parent ∈ domain, ∃ host ∈ address.host, IsParent host.text parent) ∧
      text = expiring name path domain := by
  have hdomains (parent : List Char) : parent ∈ domainsFor address.host ↔
      ∃ host ∈ address.host, IsParent host.text parent := by
    cases address.host with
    | none => exact iff_of_false List.not_mem_nil fun ⟨host, hhost, _⟩ => by cases hhost
    | some host =>
      rw [mem_domainsFor]
      exact ⟨fun h => ⟨host, rfl, h⟩, fun ⟨_, hhost, h⟩ => by cases hhost; exact h⟩
  rw [deletions, List.mem_flatMap]
  constructor
  · rintro ⟨path, hpath, htext⟩
    rw [mem_pathsFor] at hpath
    rcases List.mem_cons.mp htext with rfl | htext
    · exact ⟨path, none, hpath, (fun _ h => by cases h), rfl⟩
    · obtain ⟨parent, hparent, rfl⟩ := List.mem_map.mp htext
      refine ⟨path, some parent, hpath, fun _ h => ?_, rfl⟩
      cases h
      exact (hdomains parent).mp hparent
  · rintro ⟨path, domain, hpath, hdomain, rfl⟩
    refine ⟨path, mem_pathsFor.mpr hpath, ?_⟩
    cases domain with
    | none => exact List.mem_cons_self
    | some parent =>
      exact List.mem_cons_of_mem _
        (List.mem_map_of_mem ((hdomains parent).mpr (hdomain parent rfl)))

/-- Whatever is in it, a text that sets an expired cookie has expired. -/
theorem isExpired_expiring (name path : List Char) (domain : Option (List Char)) :
    isExpired (expiring name path domain) = true := by
  have hitem : ';' ∉ " Max-Age=0".toList := by decide
  have hlast := lastAttribute_append hitem (name ++ "=; Path=".toList ++ path ++
    (match domain with
      | none => []
      | some domain => "; Domain=".toList ++ domain)) "max-age" readMaxAge
  rw [show itemValue "max-age" readMaxAge " Max-Age=0".toList = some 0 by decide] at hlast
  rw [isExpired, show lastAttribute "max-age" readMaxAge (expiring name path domain) = some 0
    from hlast]
  rfl

section Exactness

variable {Jar : Type} {library : JarLibrary Jar} {rejects : List Char → Bool}

/-- Texts that have expired leave the cookies that none of them is about. -/
theorem cookies_foldl (hrules : KeepsRules library rejects) (address : WebAddress)
    {texts : List (List Char)} (hexpired : ∀ text ∈ texts, isExpired text = true) (jar : Jar) :
    library.cookies (texts.foldl (fun jar text => library.addCookieStr text address jar) jar) =
      (library.cookies jar).filter fun cookie =>
        texts.all fun text => keyOf rejects address text != some cookie.key := by
  induction texts generalizing jar with
  | nil => simp
  | cons text texts ih =>
    rw [List.foldl_cons, ih (fun text' h => hexpired text' (List.mem_cons_of_mem _ h)),
      hrules _ _ _ (hexpired text List.mem_cons_self), List.filter_filter]
    simp only [List.all_cons, Bool.and_comm]

/-- The cookies of a name that are offered to an address. -/
def isTarget (address : WebAddress) (name : List Char) (cookie : Cookie) : Bool :=
  cookie.name == name && cookie.applies address

/-- The cookies are those of the jar without the ones of a name for an address. -/
def DeletesExactly (library : JarLibrary Jar) (address : WebAddress) (url name : String)
    (jar : Jar) : Prop :=
  library.cookies (deleteCookie library url name jar).2 =
    (library.cookies jar).filter fun cookie => !isTarget address name.toList cookie

variable {address : WebAddress}

theorem cookies_deleteCookie (hrules : KeepsRules library rejects) {url : String}
    (hparse : library.parse url = .ok address) (name : String) (jar : Jar) :
    library.cookies (deleteCookie library url name jar).2 =
      (library.cookies jar).filter fun cookie => (deletions address name.toList).all fun text =>
        keyOf rejects address text != some cookie.key := by
  rw [deleteCookie, hparse]
  refine cookies_foldl hrules address (fun text htext => ?_) jar
  obtain ⟨path, domain, -, -, rfl⟩ := mem_deletions.mp htext
  exact isExpired_expiring _ _ _

theorem isNamed_iff {name : List Char} {cookie : Cookie} :
    IsNamed rejects address name cookie ↔ ((deletions address name).all fun text =>
      keyOf rejects address text != some cookie.key) = false := by
  rw [List.all_eq_false, IsNamed]
  constructor
  · rintro ⟨path, domain, hpath, hdomain, hkey⟩
    exact ⟨_, mem_deletions.mpr ⟨path, domain, hpath, hdomain, rfl⟩, by simp [hkey]⟩
  · rintro ⟨text, htext, hkey⟩
    obtain ⟨path, domain, hpath, hdomain, rfl⟩ := mem_deletions.mp htext
    exact ⟨path, domain, hpath, hdomain, by simpa using hkey⟩

/-- The deletion is exact when the driver sets expired cookies for those that it is to delete. -/
theorem deletesExactly_iff (hrules : KeepsRules library rejects) {url : String}
    (hparse : library.parse url = .ok address) {name : String} {jar : Jar} :
    DeletesExactly library address url name jar ↔ ∀ cookie ∈ library.cookies jar,
      (IsNamed rejects address name.toList cookie ↔ isTarget address name.toList cookie = true) := by
  rw [DeletesExactly, cookies_deleteCookie hrules hparse]
  constructor
  · intro h cookie hcookie
    have hmem := congrArg (cookie ∈ ·) h
    simp only [List.mem_filter, hcookie, true_and, eq_iff_iff] at hmem
    rw [isNamed_iff, ← Bool.not_eq_true, hmem]
    simp
  · intro h
    refine List.filter_congr fun cookie hcookie => ?_
    have hiff := h cookie hcookie
    rw [isNamed_iff] at hiff
    cases htarget : isTarget address name.toList cookie with
    | true => exact hiff.mpr htarget
    | false =>
      rw [htarget] at hiff
      cases hall : ((deletions address name.toList).all fun text =>
        keyOf rejects address text != some cookie.key) with
      | true => rfl
      | false => exact absurd (hiff.mp hall) Bool.false_ne_true

end Exactness

/-! ## Plain names and addresses -/

/-- The character ends no part of a text that sets a cookie. -/
def IsPlainChar (c : Char) : Prop := c ≠ ';' ∧ isBlank c = false

/-- The name can be the name of a cookie, and the address reads back from a text as it is. -/
structure IsPlain (address : WebAddress) (name : List Char) : Prop where
  name_ne_nil : name ≠ []
  name : ∀ c ∈ name, IsPlainChar c ∧ c ≠ '='
  path : ∀ c ∈ address.path, IsPlainChar c
  host : ∀ host ∈ address.host, ∀ c ∈ host.text, IsPlainChar c ∧ c.toLower = c
  /-- No label of the host is empty, unless it is the last one. -/
  labels : ∀ host ∈ address.host, [] ∉ (host.text.splitOn '.').dropLast

/-- A path and a domain are tried. -/
def IsTried (rejects : List Char → Bool) (address : WebAddress) (cookie : Cookie) : Prop :=
  IsTrail address.path cookie.path ∧ ∃ host ∈ address.host,
    cookie.domain = host.text ∨ IsParent host.text cookie.domain ∧
      domainMatches host cookie.domain = true ∧ rejects cookie.domain = false

theorem trimBy_of_plain (h : ∀ c ∈ text, IsPlainChar c) : trimBy isBlank text = text :=
  trimBy_eq_self_iff.mpr ⟨fun c hc => (h c (List.mem_of_head? hc)).2,
    fun c hc => (h c (List.mem_of_getLast? hc)).2⟩

theorem mem_intercalate {separator : List Char} {pieces : List (List Char)} {piece : List Char}
    (hpiece : piece ∈ pieces) (hc : c ∈ piece) : c ∈ separator.intercalate pieces := by
  induction pieces with
  | nil => exact absurd hpiece List.not_mem_nil
  | cons first pieces ih =>
    by_cases hnil : pieces = []
    · subst hnil
      rw [List.mem_singleton] at hpiece
      rw [List.intercalate_singleton, ← hpiece]
      exact hc
    · rw [List.intercalate_cons_of_ne_nil hnil]
      rcases List.mem_cons.mp hpiece with rfl | hpiece
      · simp [hc]
      · simp [ih hpiece]

theorem IsTrail.isPlainChar {path tried : List Char} (h : IsTrail path tried)
    (hpath : ∀ c ∈ path, IsPlainChar c) : ∀ c ∈ tried, IsPlainChar c := by
  have hslash : IsPlainChar '/' := ⟨by decide, by decide⟩
  obtain ⟨kept, hkept, htried⟩ := h
  have htrail : ∀ c ∈ trail kept, IsPlainChar c := by
    intro c hc
    obtain ⟨segment, hsegment, hc⟩ := List.mem_flatMap.mp hc
    rcases List.mem_cons.mp hc with rfl | hc
    · exact hslash
    · refine hpath c ?_
      rw [show path = ['/'].intercalate (path.splitOn '/') from (List.intercalate_splitOn '/').symm]
      exact mem_intercalate (List.mem_filter.mp (hkept.subset hsegment)).1 hc
  rcases htried with rfl | ⟨-, rfl⟩
  · intro c hc
    rcases List.mem_append.mp hc with hc | hc
    · exact htrail c hc
    · rw [List.mem_singleton.mp hc]
      exact hslash
  · exact htrail

theorem IsTrail.head? {path tried : List Char} (h : IsTrail path tried) :
    tried.head? = some '/' := by
  obtain ⟨kept, -, htried⟩ := h
  cases kept with
  | nil =>
    rcases htried with rfl | ⟨hne, -⟩
    · rfl
    · exact absurd rfl hne
  | cons segment kept => rcases htried with rfl | ⟨-, rfl⟩ <;> rfl

theorem IsParent.subset {host domain : List Char} (h : IsParent host domain) : domain ⊆ host := by
  rcases h.2 with rfl | ⟨before, rfl⟩
  · exact fun _ hc => hc
  · exact fun _ hc => List.mem_append_right _ (List.mem_cons_of_mem _ hc)

/-- A label that is empty and not the last one. -/
theorem nil_mem_dropLast_splitOn (before rest : List Char)
    (h : before = [] ∨ before.getLast? = some c) :
    [] ∈ ((before ++ c :: rest).splitOn c).dropLast := by
  have hlast : [] ∈ before.splitOn c := by
    rcases h with rfl | h
    · exact List.mem_singleton_self []
    · obtain ⟨front, rfl⟩ := List.getLast?_eq_some_iff.mp h
      rw [List.splitOn_append_cons_self]
      exact List.mem_append_right _ (List.mem_singleton_self [])
  rw [List.splitOn_append_cons_self,
    List.dropLast_append_of_ne_nil (List.splitOn_ne_nil c rest)]
  exact List.mem_append_left _ hlast

theorem IsParent.head?_ne {host domain : List Char} (h : IsParent host domain)
    (hlabels : [] ∉ (host.splitOn '.').dropLast) : domain.head? ≠ some '.' := by
  intro hdot
  obtain ⟨rest, rfl⟩ := List.head?_eq_some_iff.mp hdot
  rcases h.2 with rfl | ⟨before, rfl⟩
  · exact hlabels (nil_mem_dropLast_splitOn [] rest (.inl rfl))
  · refine hlabels ?_
    rw [show before ++ '.' :: '.' :: rest = before ++ ['.'] ++ '.' :: rest by simp]
    exact nil_mem_dropLast_splitOn _ rest (.inr (by simp))

section Reading

variable {rejects : List Char → Bool} {address : WebAddress} {name path domain : List Char}

theorem expiring_none : expiring name path none =
    (name ++ ['=']) ++ ';' :: (" Path".toList ++ '=' :: path) ++ ';' :: " Max-Age=0".toList := by
  change name ++ ['=', ';', ' ', 'P', 'a', 't', 'h', '='] ++ path ++ [] ++ _ =
    (name ++ ['=']) ++ ';' :: ([' ', 'P', 'a', 't', 'h'] ++ '=' :: path) ++
      [';', ' ', 'M', 'a', 'x', '-', 'A', 'g', 'e', '=', '0']
  simp

theorem expiring_some : expiring name path (some domain) =
    (name ++ ['=']) ++ ';' :: (" Path".toList ++ '=' :: path) ++
      ';' :: (" Domain".toList ++ '=' :: domain) ++ ';' :: " Max-Age=0".toList := by
  change name ++ ['=', ';', ' ', 'P', 'a', 't', 'h', '='] ++ path ++
      ([';', ' ', 'D', 'o', 'm', 'a', 'i', 'n', '='] ++ domain) ++ _ =
    (name ++ ['=']) ++ ';' :: ([' ', 'P', 'a', 't', 'h'] ++ '=' :: path) ++
      ';' :: ([' ', 'D', 'o', 'm', 'a', 'i', 'n'] ++ '=' :: domain) ++
      [';', ' ', 'M', 'a', 'x', '-', 'A', 'g', 'e', '=', '0']
  simp

variable {α : Type}

theorem itemValue_labelled {label : List Char} (h : '=' ∉ label) (wanted : String)
    (read : List Char → Option α) {value : List Char} (hvalue : ∀ c ∈ value, IsPlainChar c) :
    itemValue wanted read (label ++ '=' :: value) =
      if (trimBy isBlank label).map Char.toLower = wanted.toList then read value else none := by
  rw [itemValue, sides_append h, trimBy_of_plain hvalue]

theorem not_mem_labelled {label value : List Char} (hlabel : ';' ∉ label)
    (hvalue : ∀ c ∈ value, IsPlainChar c) : ';' ∉ label ++ '=' :: value := by
  rw [List.mem_append, List.mem_cons]
  rintro (h | h | h)
  · exact hlabel h
  · exact absurd h (by decide)
  · exact (hvalue _ h).1 rfl

theorem not_mem_pair (hname : ∀ c ∈ name, IsPlainChar c ∧ c ≠ '=') : ';' ∉ name ++ ['='] := by
  rw [List.mem_append, List.mem_singleton]
  rintro (h | h)
  · exact (hname _ h).1.1 rfl
  · exact absurd h (by decide)

variable {wanted : String}

theorem lastAttribute_labelled {label value text : List Char} {read : List Char → Option α}
    (hlabel : ';' ∉ label) (hequals : '=' ∉ label) (hvalue : ∀ c ∈ value, IsPlainChar c) :
    lastAttribute wanted read (text ++ ';' :: (label ++ '=' :: value)) =
      (if (trimBy isBlank label).map Char.toLower = wanted.toList then read value else none).or
        (lastAttribute wanted read text) := by
  rw [lastAttribute_append (not_mem_labelled hlabel hvalue), itemValue_labelled hequals _ _ hvalue]

theorem lastAttribute_expired {text : List Char} {read : List Char → Option α}
    (h : itemValue wanted read " Max-Age=0".toList = none) :
    lastAttribute wanted read (text ++ ';' :: " Max-Age=0".toList) =
      lastAttribute wanted read text := by
  rw [lastAttribute_append (by decide), h, Option.none_or]

/-- The attributes of an expired cookie without a domain. -/
theorem lastAttribute_expiring_none (hname : ∀ c ∈ name, IsPlainChar c ∧ c ≠ '=')
    (hpath : ∀ c ∈ path, IsPlainChar c) :
    lastAttribute "path" some (expiring name path none) = some path ∧
      lastAttribute "domain" readDomain (expiring name path none) = none ∧
      ((expiring name path none).splitOn ';').head? = some (name ++ ['=']) := by
  have hfirst := not_mem_pair hname
  rw [expiring_none]
  refine ⟨?_, ?_, ?_⟩
  · rw [lastAttribute_expired (by decide), lastAttribute_labelled (by decide) (by decide) hpath,
      if_pos (by decide), Option.some_or]
  · rw [lastAttribute_expired (by decide), lastAttribute_labelled (by decide) (by decide) hpath,
      if_neg (by decide), lastAttribute_of_not_mem hfirst, Option.none_or]
  · rw [head?_splitOn_append (by decide), head?_splitOn_append (not_mem_labelled (by decide) hpath),
      List.splitOn_eq_singleton hfirst]
    rfl

/-- The attributes of an expired cookie with a domain. -/
theorem lastAttribute_expiring_some (hname : ∀ c ∈ name, IsPlainChar c ∧ c ≠ '=')
    (hpath : ∀ c ∈ path, IsPlainChar c) (hdomain : ∀ c ∈ domain, IsPlainChar c) :
    lastAttribute "path" some (expiring name path (some domain)) = some path ∧
      lastAttribute "domain" readDomain (expiring name path (some domain)) = readDomain domain ∧
      ((expiring name path (some domain)).splitOn ';').head? = some (name ++ ['=']) := by
  have hfirst := not_mem_pair hname
  rw [expiring_some]
  refine ⟨?_, ?_, ?_⟩
  · rw [lastAttribute_expired (by decide), lastAttribute_labelled (by decide) (by decide) hdomain,
      if_neg (by decide), lastAttribute_labelled (by decide) (by decide) hpath,
      if_pos (by decide), Option.some_or, Option.none_or]
  · rw [lastAttribute_expired (by decide), lastAttribute_labelled (by decide) (by decide) hdomain,
      if_pos (by decide), lastAttribute_labelled (by decide) (by decide) hpath,
      if_neg (by decide), lastAttribute_of_not_mem hfirst, Option.none_or, Option.or_none]
  · rw [head?_splitOn_append (by decide),
      head?_splitOn_append (not_mem_labelled (by decide) hdomain),
      head?_splitOn_append (not_mem_labelled (by decide) hpath), List.splitOn_eq_singleton hfirst]
    rfl

theorem keyOf_of_parts {host : Host} {text : List Char} (hhost : address.host = some host)
    (hne : name ≠ []) (hname : ∀ c ∈ name, IsPlainChar c ∧ c ≠ '=')
    (hhead : (text.splitOn ';').head? = some (name ++ ['=']))
    (hpath : lastAttribute "path" some text = some path) (hslash : path.head? = some '/') :
    keyOf rejects address text =
      (cookieDomain rejects host text).map fun domain => ⟨name, domain, path⟩ := by
  have hsides : sides (name ++ ['=']) = (name, []) := by
    rw [sides_append fun h => (hname _ h).2 rfl, trimBy_of_plain fun c hc => (hname c hc).1]
    rfl
  rw [Cookies.keyOf, hhost, hhead]
  dsimp only
  rw [hsides, if_pos ⟨by simp, hne⟩, cookiePath, hpath]
  dsimp only
  rw [if_pos hslash]

theorem readDomain_of_parent {host : Host} (hparent : IsParent host.text domain)
    (hchars : ∀ c ∈ host.text, IsPlainChar c ∧ c.toLower = c) (hhead : domain.head? ≠ some '.') :
    readDomain domain = some domain := by
  have hne : domain ≠ [] := List.ne_nil_of_mem hparent.1
  have hlower : domain.map Char.toLower = domain :=
    (List.map_congr_left fun c hc => (hchars c (hparent.subset hc)).2).trans (List.map_id _)
  rw [readDomain, if_neg hne, if_neg hhead, hlower]

/-- The cookies that the driver sets expired cookies for have the name and are tried. -/
theorem isNamed_iff_isTried (hplain : IsPlain address name) {cookie : Cookie} :
    IsNamed rejects address name cookie ↔ cookie.name = name ∧ IsTried rejects address cookie := by
  cases hhost : address.host with
  | none =>
    refine iff_of_false ?_ ?_
    · rintro ⟨path, domain, -, -, hkey⟩
      rw [Cookies.keyOf, hhost] at hkey
      cases hkey
    · rintro ⟨-, -, host, h, -⟩
      rw [hhost] at h
      cases h
  | some host =>
    have hchars := hplain.host host hhost
    have hlabels := hplain.labels host hhost
    -- The cookie of an expired one, without and with a domain.
    have hnone {path : List Char} (hpath : IsTrail address.path path) :
        keyOf rejects address (expiring name path none) = some ⟨name, host.text, path⟩ := by
      obtain ⟨hpathAttr, hdomainAttr, hpair⟩ :=
        lastAttribute_expiring_none hplain.name (hpath.isPlainChar hplain.path)
      rw [keyOf_of_parts hhost hplain.name_ne_nil hplain.name hpair hpathAttr hpath.head?,
        cookieDomain, hdomainAttr]
      rfl
    have hsome {path domain : List Char} (hpath : IsTrail address.path path)
        (hparent : IsParent host.text domain) :
        keyOf rejects address (expiring name path (some domain)) =
          (if domain = [] ∨ domain = host.text then some host.text
            else if rejects domain = true ∨ domainMatches host domain = false then none
            else some domain).map fun domain => ⟨name, domain, path⟩ := by
      obtain ⟨hpathAttr, hdomainAttr, hpair⟩ := lastAttribute_expiring_some hplain.name
        (hpath.isPlainChar hplain.path) fun c hc => (hchars c (hparent.subset hc)).1
      rw [keyOf_of_parts hhost hplain.name_ne_nil hplain.name hpair hpathAttr hpath.head?,
        cookieDomain, hdomainAttr,
        readDomain_of_parent hparent hchars (hparent.head?_ne hlabels)]
    constructor
    · rintro ⟨path, domain, hpath, hdomain, hkey⟩
      cases domain with
      | none =>
        rw [hnone hpath, Option.some.injEq, Cookie.key, CookieKey.mk.injEq] at hkey
        obtain ⟨hname, hdomain, rfl⟩ := hkey
        exact ⟨hname.symm, hpath, host, hhost, .inl hdomain.symm⟩
      | some domain =>
        obtain ⟨host', hhost', hparent⟩ := hdomain domain rfl
        rw [hhost] at hhost'
        cases hhost'
        rw [hsome hpath hparent, Option.map_eq_some_iff] at hkey
        obtain ⟨found, hfound, hkey⟩ := hkey
        rw [Cookie.key, CookieKey.mk.injEq] at hkey
        obtain ⟨hname, rfl, rfl⟩ := hkey
        refine ⟨hname.symm, hpath, host, hhost, ?_⟩
        split at hfound
        case isTrue => exact .inl (Option.some.inj hfound).symm
        case isFalse =>
          split at hfound
          case isTrue => cases hfound
          case isFalse hok =>
            rw [not_or, Bool.not_eq_true, Bool.not_eq_false] at hok
            rw [← Option.some.inj hfound]
            exact .inr ⟨hparent, hok.2, hok.1⟩
    · rintro ⟨rfl, hpath, host', hhost', hdomain⟩
      rw [hhost] at hhost'
      cases hhost'
      rcases hdomain with hdomain | ⟨hparent, hmatches, hkept⟩
      · refine ⟨cookie.path, none, hpath, (by rintro _ ⟨⟩), ?_⟩
        rw [hnone hpath, Cookie.key, hdomain]
      · by_cases hsame : cookie.domain = host.text
        · refine ⟨cookie.path, none, hpath, (by rintro _ ⟨⟩), ?_⟩
          rw [hnone hpath, Cookie.key, hsame]
        · refine ⟨cookie.path, some cookie.domain, hpath, ?_, ?_⟩
          · rintro _ ⟨⟩
            exact ⟨host, hhost, hparent⟩
          · rw [hsome hpath hparent, if_neg (not_or.mpr ⟨List.ne_nil_of_mem hparent.1, hsame⟩),
              if_neg (by simp [hmatches, hkept])]
            rfl

end Reading

/-- The deletion is exact when the driver sets expired cookies for those that it is to delete. For
a plain name and a plain address these are the cookies of the name that have a path and a domain
that are tried. -/
theorem deleteCookie_exact_iff {Jar : Type} {library : JarLibrary Jar} {rejects : List Char → Bool}
    (hrules : KeepsRules library rejects) {url : String} {address : WebAddress}
    (hparse : library.parse url = .ok address) {name : String} {jar : Jar} :
    (DeletesExactly library address url name jar ↔ ∀ cookie ∈ library.cookies jar,
      (IsNamed rejects address name.toList cookie ↔ isTarget address name.toList cookie = true)) ∧
    (IsPlain address name.toList →
      (DeletesExactly library address url name jar ↔ ∀ cookie ∈ library.cookies jar,
        cookie.name = name.toList →
          (IsTried rejects address cookie ↔ cookie.applies address = true))) := by
  refine ⟨deletesExactly_iff hrules hparse, fun hplain => ?_⟩
  rw [deletesExactly_iff hrules hparse]
  refine forall₂_congr fun cookie _ => ?_
  rw [isNamed_iff_isTried hplain, isTarget, Bool.and_eq_true, beq_iff_eq]
  exact ⟨fun h hname => by simpa [hname] using h, fun h => and_congr_right h⟩

/-! ### A path with an empty segment -/

section Sample

def sampleLibrary (address : WebAddress) : JarLibrary (List Cookie) where
  parse _ := .ok address
  cookies jar := jar
  addCookieStr text address jar :=
    if isExpired text = true then
      jar.filter fun cookie => keyOf (fun _ => false) address text != some cookie.key
    else jar

theorem keepsRules_sampleLibrary (address : WebAddress) :
    KeepsRules (sampleLibrary address) fun _ => false := fun _ _ _ h => if_pos h

def sampleAddress (path : String) : WebAddress :=
  ⟨true, some ⟨"example.com".toList, false⟩, path.toList⟩

def sampleCookie (path : String) : Cookie where
  name := "sid".toList
  value := "1".toList
  domain := "example.com".toList
  hostOnly := true
  path := path.toList
  secureOnly := false
  httpOnly := false
  expires := none

instance (c : Char) : Decidable (IsPlainChar c) := inferInstanceAs (Decidable (_ ∧ _))

theorem isPlain_sampleAddress {path : String} (h : ∀ c ∈ path.toList, IsPlainChar c) :
    IsPlain (sampleAddress path) "sid".toList := by
  refine ⟨by decide, by decide, h, ?_, ?_⟩
  · rintro host ⟨⟩
    decide
  · rintro host ⟨⟩
    decide

theorem deleteCookie_exact_sample :
    (DeletesExactly (sampleLibrary (sampleAddress "/a/b")) (sampleAddress "/a/b")
        "https://example.com/a/b" "sid" [sampleCookie "/a"] ↔
      ∀ cookie ∈ [sampleCookie "/a"],
        (IsNamed (fun _ => false) (sampleAddress "/a/b") "sid".toList cookie ↔
          isTarget (sampleAddress "/a/b") "sid".toList cookie = true)) ∧
    (DeletesExactly (sampleLibrary (sampleAddress "/a/b")) (sampleAddress "/a/b")
        "https://example.com/a/b" "sid" [sampleCookie "/a"] ↔
      ∀ cookie ∈ [sampleCookie "/a"], cookie.name = "sid".toList →
        (IsTried (fun _ => false) (sampleAddress "/a/b") cookie ↔
          cookie.applies (sampleAddress "/a/b") = true)) :=
  have h := @deleteCookie_exact_iff _ _ _ (keepsRules_sampleLibrary (sampleAddress "/a/b"))
    "https://example.com/a/b" _ rfl "sid" [sampleCookie "/a"]
  ⟨h.1, h.2 (isPlain_sampleAddress (by decide))⟩

/-- A cookie stays whose path has an empty segment. -/
theorem deleteCookie_exact_not : ¬∀ (library : JarLibrary (List Cookie))
    (rejects : List Char → Bool) (url : String) (address : WebAddress) (name : String)
    (jar : List Cookie), KeepsRules library rejects → library.parse url = .ok address →
      DeletesExactly library address url name jar := by
  intro h
  have hsample := h (sampleLibrary (sampleAddress "/a//b")) (fun _ => false)
    "https://example.com/a//b" (sampleAddress "/a//b") "sid" [sampleCookie "/a//b"]
    (keepsRules_sampleLibrary _) rfl
  have hnamed := ((deletesExactly_iff (keepsRules_sampleLibrary _) rfl).mp hsample
    (sampleCookie "/a//b") List.mem_cons_self).mpr (by decide)
  obtain ⟨-, ⟨kept, hkept, htried⟩, -⟩ :=
    (isNamed_iff_isTried (isPlain_sampleAddress (by decide))).mp hnamed
  rw [show segments (sampleAddress "/a//b").path = ["a".toList, "b".toList] by decide] at hkept
  obtain rfl | ⟨rest, rfl, hrest⟩ := List.prefix_cons_iff.mp hkept
  · revert htried
    decide
  · obtain rfl | ⟨last, rfl, hlast⟩ := List.prefix_cons_iff.mp hrest
    · revert htried
      decide
    · rw [List.prefix_nil.mp hlast] at htried
      revert htried
      decide

end Sample

end ApiVoy.Drivers.Cookies
