/-
# Cookies

Which cookies of a jar are offered to an address, and which one a text that sets a cookie is about.
A cookie belongs to one host or to a domain with all its hosts, and to the part of a site below a
path; its name, its domain and its path tell it from all others. A text whose age is not positive
removes the cookie that it is about.
-/

import ApiVoy.Foundation.Numerals
import ApiVoy.Foundation.Trimming

namespace ApiVoy.Foundation.Cookies

/-! ## Matching -/

/-- The host of an address is a name or a number. -/
structure Host where
  text : List Char
  isAddress : Bool
  deriving DecidableEq

/-- What cookies depend on in an address. -/
structure WebAddress where
  isSecure : Bool
  host : Option Host
  path : List Char
  deriving DecidableEq

/-- A domain is matched by the host of its name and by the hosts below it. -/
def domainMatches (host : Host) (domain : List Char) : Bool :=
  host.text == domain || (!host.isAddress && ('.' :: domain).isSuffixOf host.text)

/-- A path is matched by itself and by the paths below it. -/
def pathMatches (path cookiePath : List Char) : Bool :=
  path == cookiePath || (cookiePath.isPrefixOf path &&
    (cookiePath.getLast? == some '/' || (path.drop cookiePath.length).head? == some '/'))

/-- What tells a cookie from the others of a jar. -/
structure CookieKey where
  name : List Char
  domain : List Char
  path : List Char
  deriving DecidableEq

structure Cookie where
  name : List Char
  value : List Char
  domain : List Char
  /-- The cookie is for the host alone, not for the hosts below it. -/
  hostOnly : Bool
  path : List Char
  secureOnly : Bool
  httpOnly : Bool
  /-- When the cookie expires, unless it lasts for the session. -/
  expires : Option Nat
  deriving DecidableEq

namespace Cookie

def key (cookie : Cookie) : CookieKey := ⟨cookie.name, cookie.domain, cookie.path⟩

def applies (address : WebAddress) (cookie : Cookie) : Bool :=
  match address.host with
  | none => false
  | some host =>
    (if cookie.hostOnly = true then host.text == cookie.domain
      else domainMatches host cookie.domain) &&
    pathMatches address.path cookie.path && (!cookie.secureOnly || address.isSecure)

end Cookie

/-! ## Texts that set a cookie -/

def isBlank (c : Char) : Bool := c == ' ' || c == '\t'

/-- The two sides of the first equals sign; without one all is on the left. -/
def sides (item : List Char) : List Char × List Char :=
  (trimBy isBlank (item.takeWhile (· ≠ '=')), trimBy isBlank ((item.dropWhile (· ≠ '=')).drop 1))

/-- The attributes of a cookie, with their names in small letters. -/
def attributes (text : List Char) : List (List Char × List Char) :=
  ((text.splitOn ';').drop 1).map fun item =>
    ((sides item).1.map Char.toLower, (sides item).2)

/-- The last one of the attributes of a name that can be read. -/
def lastAttribute {α : Type} (name : String) (read : List Char → Option α) (text : List Char) :
    Option α :=
  ((attributes text).filterMap fun pair =>
    if pair.1 = name.toList then read pair.2 else none).getLast?

/-- How many seconds a cookie is to last. -/
def readMaxAge : List Char → Option Int
  | '-' :: digits => (parseDigits digits).map fun n => -(n : Int)
  | digits => (parseDigits digits).map fun n => (n : Int)

/-- A domain may be written with a dot in front. -/
def readDomain (value : List Char) : Option (List Char) :=
  if value = [] then none
  else some ((if value.head? = some '.' then value.drop 1 else value).map Char.toLower)

/-- The part of a site that a cookie belongs to when its text does not say. -/
def defaultPath (path : List Char) : List Char :=
  if path.head? ≠ some '/' ∨ path.count '/' ≤ 1 then ['/']
  else (path.reverse.dropWhile (· ≠ '/')).tail.reverse

/-- The text removes a cookie. -/
def isExpired (text : List Char) : Bool :=
  match lastAttribute "max-age" readMaxAge text with
  | none => false
  | some age => decide (age ≤ 0)

/-- The domain of a cookie: the one that its text gives, if the host of the address belongs to it,
or the host. Domains under which anyone can register may be rejected. -/
def cookieDomain (rejects : List Char → Bool) (host : Host) (text : List Char) :
    Option (List Char) :=
  match lastAttribute "domain" readDomain text with
  | none => some host.text
  | some domain =>
    if domain = [] ∨ domain = host.text then some host.text
    else if rejects domain = true ∨ domainMatches host domain = false then none
    else some domain

def cookiePath (path text : List Char) : List Char :=
  match lastAttribute "path" some text with
  | none => defaultPath path
  | some value => if value.head? = some '/' then value else defaultPath path

/-- The cookie that a text is about, when it comes from an address. -/
def keyOf (rejects : List Char → Bool) (address : WebAddress) (text : List Char) :
    Option CookieKey :=
  match address.host, (text.splitOn ';').head? with
  | some host, some pair =>
    if '=' ∈ pair ∧ (sides pair).1 ≠ [] then
      (cookieDomain rejects host text).map fun domain =>
        ⟨(sides pair).1, domain, cookiePath address.path text⟩
    else none
  | _, _ => none

/-! ## Longer texts -/

/-- What an item of a text gives for an attribute. -/
def itemValue {α : Type} (name : String) (read : List Char → Option α) (item : List Char) :
    Option α :=
  if (sides item).1.map Char.toLower = name.toList then read (sides item).2 else none

variable {item : List Char}

theorem splitOn_append_item (h : ';' ∉ item) (text : List Char) :
    (text ++ ';' :: item).splitOn ';' = text.splitOn ';' ++ [item] := by
  rw [List.splitOn_append_cons_self, List.splitOn_eq_singleton h]

theorem attributes_append (h : ';' ∉ item) (text : List Char) :
    attributes (text ++ ';' :: item) =
      attributes text ++ [((sides item).1.map Char.toLower, (sides item).2)] := by
  have hlength : 1 ≤ (text.splitOn ';').length :=
    List.length_pos_iff.mpr (List.splitOn_ne_nil ';' text)
  rw [attributes, splitOn_append_item h, List.drop_append_of_le_length hlength, List.map_append]
  rfl

/-- The last item of a text decides what it can decide. -/
theorem lastAttribute_append {α : Type} (h : ';' ∉ item) (text : List Char) (name : String)
    (read : List Char → Option α) :
    lastAttribute name read (text ++ ';' :: item) =
      (itemValue name read item).or (lastAttribute name read text) := by
  have hlast : [((sides item).1.map Char.toLower, (sides item).2)].filterMap (fun pair =>
      if pair.1 = name.toList then read pair.2 else none) = (itemValue name read item).toList := by
    cases hvalue : itemValue name read item with
    | none => exact List.filterMap_cons_none hvalue
    | some value => exact List.filterMap_cons_some hvalue
  rw [lastAttribute, attributes_append h, List.filterMap_append, hlast, List.getLast?_append]
  cases itemValue name read item <;> rfl

theorem lastAttribute_of_not_mem {α : Type} {text : List Char} (h : ';' ∉ text) (name : String)
    (read : List Char → Option α) : lastAttribute name read text = none := by
  rw [lastAttribute, attributes, List.splitOn_eq_singleton h]
  rfl

theorem sides_append {name : List Char} (h : '=' ∉ name) (value : List Char) :
    sides (name ++ '=' :: value) = (trimBy isBlank name, trimBy isBlank value) := by
  have hall : ∀ c ∈ name, decide (c ≠ '=') = true := fun c hc => by
    rw [decide_eq_true_iff]
    rintro rfl
    exact h hc
  rw [sides, List.takeWhile_append_of_pos hall, List.dropWhile_append_of_pos hall]
  simp

/-- Items behind a text leave its first part alone. -/
theorem head?_splitOn_append (h : ';' ∉ item) (text : List Char) :
    ((text ++ ';' :: item).splitOn ';').head? = (text.splitOn ';').head? := by
  rw [splitOn_append_item h]
  exact List.head?_append_of_ne_nil _ (List.splitOn_ne_nil ';' text)

end ApiVoy.Foundation.Cookies
