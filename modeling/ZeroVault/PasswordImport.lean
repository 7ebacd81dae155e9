import Mathlib.Data.List.Infix
import ZeroVault.Lines
import ZeroVault.VaultItems

/-!
# Password files

What the web vault and the desktop read from a file of passwords and write into a
CSV file. The JSON readers take what was parsed for an object of the type they
hope for and throw where it is not.
-/

namespace ZeroVault.Import

open Lib
open Browser (atMost VaultItem)

/-! ## Rows -/

structure ImportLoginRow where
  origin : String
  username : String
  password : String
  title : Option String
  notes : Option String
deriving DecidableEq, Repr

structure Imported where
  rows : List ImportLoginRow := []
  rejected : Nat := 0
deriving DecidableEq, Repr

section
variable (isUrl : String → Bool)

def importLoginRowSchema (candidate : ImportLoginRow) : Bool :=
  isUrl candidate.origin && atMost 1024 candidate.username && 1 ≤ jsLength candidate.password &&
    candidate.title.all (atMost 2048) && candidate.notes.all (atMost 8192)

/-- `safeParse`, and the row or the count. -/
def Imported.add (s : Imported) (candidate : ImportLoginRow) : Imported :=
  if importLoginRowSchema isUrl candidate then { s with rows := s.rows ++ [candidate] }
  else { s with rejected := s.rejected + 1 }

end

/-- `value || undefined` -/
def orUndefined (value : String) : Option String := if value.isEmpty then none else some value

def trim (value : String) : String := String.ofList (trimJs value.toList)

/-! ## JSON -/

/-- What `JSON.parse` gives; an object has its own properties, each once. -/
inductive Json
  | null
  | bool (value : Bool)
  | number (value : Rat)
  | string (value : String)
  | array (elements : List Json)
  | object (fields : List (String × Json))

inductive TypeError
  | readOfNull
  | notAFunction
  | notIterable
deriving DecidableEq, Repr

/-- `value.name` -/
def Json.get (name : String) : Json → Except TypeError (Option Json)
  | .null => .error .readOfNull
  | .object fields => .ok (fields.lookup name)
  | .array elements => .ok (if name = "length" then some (.number elements.length) else none)
  | .string value => .ok (if name = "length" then some (.number (jsLength value)) else none)
  | _ => .ok none

/-- `value?.name` -/
def getOptional (value : Option Json) (name : String) : Except TypeError (Option Json) :=
  match value with
  | none => .ok none
  | some .null => .ok none
  | some value => value.get name

/-- `value?.trim()` -/
def trimOptional : Option Json → Except TypeError (Option String)
  | none => .ok none
  | some .null => .ok none
  | some (.string value) => .ok (some (trim value))
  | some _ => .error .notAFunction

/-- `value ?? []` -/
def orEmpty : Option Json → Json
  | none => .array []
  | some .null => .array []
  | some value => value

/-- `for (const element of value)` -/
def Json.iterate : Json → Except TypeError (List Json)
  | .array elements => .ok elements
  | .string value => .ok (value.toList.map fun c => .string (String.singleton c))
  | _ => .error .notIterable

/-- `value.length === 0` -/
def Json.isEmpty (value : Json) : Except TypeError Bool := do
  match ← value.get "length" with
  | some (.number n) => pure (n == 0)
  | _ => pure false

section
variable (isUrl : String → Bool) (parse : String → Option Json)

/-- `candidate` is the candidate of an origin. -/
def parseUri (candidate : String → ImportLoginRow) (s : Imported) (uriObj : Json) : Except TypeError Imported := do
  let origin := (← trimOptional (← uriObj.get "uri")).getD ""
  pure (s.add isUrl (candidate origin))

def parseBitwardenItem (s : Imported) (item : Json) : Except TypeError Imported := do
  let login ← item.get "login"
  let username := (← trimOptional (← getOptional login "username")).getD ""
  let password := (← trimOptional (← getOptional login "password")).getD ""
  let title := (← trimOptional (← item.get "name")).bind orUndefined
  let notes := (← trimOptional (← item.get "notes")).bind orUndefined
  let uris := orEmpty (← getOptional login "uris")
  let candidate := fun origin => { origin, username, password, title, notes : ImportLoginRow }
  if password.isEmpty then pure { s with rejected := s.rejected + 1 }
  else if ← uris.isEmpty then pure (s.add isUrl (candidate ""))
  else (← uris.iterate).foldlM (parseUri isUrl candidate) s

def parseBitwardenJson (content : String) : Except TypeError Imported := do
  match parse (trim content) with
  | none => pure {}
  | some data =>
    let items := orEmpty (← data.get "items")
    (← items.iterate).foldlM (parseBitwardenItem isUrl) {}

/-- `!entry || typeof entry !== "object"` -/
def Json.isObject : Json → Bool
  | .array _ => true
  | .object _ => true
  | _ => false

/-- `entry.first?.trim() || entry.second?.trim()` and so on; a later field is read when the earlier ones are blank. -/
def firstText (entry : Json) : List String → Except TypeError (Option String)
  | [] => pure none
  | name :: names => do
    match (← trimOptional (← entry.get name)).bind orUndefined with
    | some value => pure (some value)
    | none => firstText entry names

def parseGenericLogin (s : Imported) (entry : Json) : Except TypeError Imported := do
  if !entry.isObject then pure { s with rejected := s.rejected + 1 }
  else
    let password := (← trimOptional (← entry.get "password")).getD ""
    if password.isEmpty then pure { s with rejected := s.rejected + 1 }
    else
      let origin := (← firstText entry ["url", "origin", "website"]).getD ""
      let username := (← trimOptional (← entry.get "username")).getD ""
      let title ← firstText entry ["name", "title"]
      let notes ← firstText entry ["notes"]
      pure (s.add isUrl { origin, username, password, title, notes })

def parseGenericLoginJson (content : String) : Except TypeError Imported :=
  match parse (trim content) with
  | some (.array entries) => entries.foldlM (parseGenericLogin isUrl) {}
  | _ => pure {}

end

/-! ## CSV -/

/-- The loop over the characters of a line, with what is read of the current cell. -/
def splitCsvLoop : List Char → List Char → Bool → List (List Char) → List (List Char)
  | '"' :: '"' :: rest, current, true, cells => splitCsvLoop rest (current ++ ['"']) true cells
  | '"' :: rest, current, quoted, cells => splitCsvLoop rest current (!quoted) cells
  | ',' :: rest, current, false, cells => splitCsvLoop rest [] false (cells ++ [current])
  | char :: rest, current, quoted, cells => splitCsvLoop rest (current ++ [char]) quoted cells
  | [], current, _, cells => cells ++ [current]

def splitCsvLine (line : List Char) : List (List Char) := (splitCsvLoop line [] false []).map trimJs

/-- The lines that are not blank, without a byte order mark. -/
def csvLines (csv : List Char) : List (List Char) :=
  (Lines.split (if csv.head? = some '\uFEFF' then csv.drop 1 else csv)).filter fun line => !(trimJs line).isEmpty

section
variable (toLowerCase : List Char → List Char) (isUrl : String → Bool)

def normalizeHeader (header : List Char) : List Char :=
  (toLowerCase (trimJs header)).map fun c => if c = ' ' then '_' else c

def importLines (candidate : List (List Char) → ImportLoginRow) (lines : List (List Char)) : Imported :=
  lines.foldl (fun s line => s.add isUrl (candidate (splitCsvLine line))) {}

end

namespace Web

/-- `row[name]`, the last of the entries of this name. -/
def field (row : List (List Char × List Char)) (name : String) : List Char :=
  ((row.reverse.find? fun entry => entry.1 == name.toList).map Prod.snd).getD []

def pick (row : List (List Char × List Char)) (names : List String) : String :=
  String.ofList (((names.map (field row)).find? fun value => !value.isEmpty).getD [])

def candidateOf (headers values : List (List Char)) : ImportLoginRow :=
  let raw := headers.zipIdx.map fun header => (header.1, values[header.2]?.getD [])
  { origin := pick raw ["url", "origin", "website", "signon_realm"]
    username := pick raw ["username", "login", "email"]
    password := pick raw ["password"]
    title := orUndefined (pick raw ["name", "title"])
    notes := orUndefined (pick raw ["notes", "note"]) }

def parsePasswordCsv (toLowerCase : List Char → List Char) (isUrl : String → Bool) (csv : String) : Imported :=
  match csvLines csv.toList with
  | header :: line :: lines =>
    let headers := (splitCsvLine header).map (normalizeHeader toLowerCase)
    importLines isUrl (candidateOf headers) (line :: lines)
  | _ => {}

end Web

namespace Desktop

structure ColumnMapping where
  origin : List Char
  username : List Char
  password : List Char
  title : List Char
  notes : List Char
deriving DecidableEq, Repr

def DEFAULT_ORIGIN_HEADERS : List String := ["url", "origin", "website", "signon_realm", "login_uri", "web_site"]
def DEFAULT_USERNAME_HEADERS : List String := ["username", "login", "email", "login_username"]
def DEFAULT_PASSWORD_HEADERS : List String := ["password", "login_password"]
def DEFAULT_TITLE_HEADERS : List String := ["name", "title"]
def DEFAULT_NOTES_HEADERS : List String := ["notes", "note", "extra", "comments"]

def findHeader (headers normalized : List (List Char)) (candidates : List String) : List Char :=
  ((candidates.findSome? fun candidate => normalized.idxOf? candidate.toList).bind fun index => headers[index]?).getD []

section
variable (toLowerCase : List Char → List Char) (isUrl : String → Bool)

def autoDetectMapping (headers : List (List Char)) : ColumnMapping :=
  let find := findHeader headers (headers.map (normalizeHeader toLowerCase))
  { origin := find DEFAULT_ORIGIN_HEADERS
    username := find DEFAULT_USERNAME_HEADERS
    password := find DEFAULT_PASSWORD_HEADERS
    title := find DEFAULT_TITLE_HEADERS
    notes := find DEFAULT_NOTES_HEADERS }

/-- `headerIndex`, and the value at it. -/
def column (headers values : List (List Char)) (name : List Char) : String :=
  String.ofList <|
    if name.isEmpty then []
    else ((headers.idxOf? (normalizeHeader toLowerCase name)).bind fun index => values[index]?).getD []

def candidateOf (mapping : ColumnMapping) (headers values : List (List Char)) : ImportLoginRow where
  origin := column toLowerCase headers values mapping.origin
  username := column toLowerCase headers values mapping.username
  password := column toLowerCase headers values mapping.password
  title := orUndefined (column toLowerCase headers values mapping.title)
  notes := orUndefined (column toLowerCase headers values mapping.notes)

def parsePasswordCsv (csv : String) (mapping : Option ColumnMapping) : Imported :=
  match csvLines csv.toList with
  | header :: line :: lines =>
    let rawHeaders := splitCsvLine header
    let mappingResolved := mapping.getD (autoDetectMapping toLowerCase rawHeaders)
    importLines isUrl (candidateOf toLowerCase mappingResolved (rawHeaders.map (normalizeHeader toLowerCase)))
      (line :: lines)
  | _ => {}

end

end Desktop

/-! ## Formats -/

/-- The formats of both clients; `chrome`, `firefox` and `lastpass` are the desktop's. -/
inductive ImportFormat
  | chrome
  | firefox
  | bitwarden
  | onePassword
  | lastpass
  | csv
  | genericJson
  | unknown
deriving DecidableEq, Repr

def includes (text : List Char) (part : String) : Bool := decide (part.toList <:+: text)

/-- `encrypted` is `false`, `items` an array. -/
def isBitwarden (fields : List (String × Json)) : Bool :=
  match fields.lookup "encrypted", fields.lookup "items" with
  | some (.bool false), some (.array _) => true
  | _, _ => false

section
variable (toLowerCase : List Char → List Char) (isUrl : String → Bool) (parse : String → Option Json)

def detectJson : Json → Option ImportFormat
  | .object fields =>
    if isBitwarden fields then some .bitwarden
    else if (fields.lookup "accounts").isSome || (fields.lookup "attrs").isSome then some .onePassword
    else none
  | .array (.object fields :: _) =>
    if fields.any fun entry => ["login", "url", "origin", "username", "password", "name", "title"].any fun key =>
        toLowerCase entry.1.toList == key.toList then some .genericJson
    else none
  | _ => none

/-- What both clients look at: the extension, then JSON; `csvFormat` is told the first line. -/
def detectFormat (csvFormat : List Char → ImportFormat) (content fileName : String) : ImportFormat :=
  let ext := ((toLowerCase fileName.toList).splitOn '.').getLast?.getD []
  if ext = "1pux".toList then .onePassword
  else
    let trimmed := trimJs content.toList
    let json := if trimmed.head? = some '\x7b' ∨ trimmed.head? = some '[' then
        (parse (String.ofList trimmed)).bind (detectJson toLowerCase)
      else none
    match json with
    | some format => format
    | none =>
      if trimmed.contains ',' then csvFormat (toLowerCase ((Lines.split trimmed).head?.getD [])) else .unknown

def parseOnePassword (parsePasswordCsv : String → Imported) (content : String) : Imported :=
  let trimmed := trimJs content.toList
  if !trimmed.contains ',' && trimmed.head? != some '\x7b' && trimmed.head? != some '[' then {}
  else parsePasswordCsv (String.ofList trimmed)

namespace Web

def csvFormat (firstLine : List Char) : ImportFormat :=
  if includes firstLine "type" || includes firstLine "vault" || includes firstLine "login_uri" then .onePassword
  else if includes firstLine "url" || includes firstLine "name" || includes firstLine "title" ||
      includes firstLine "username" || includes firstLine "password" || includes firstLine "website" then .csv
  else if 0 < firstLine.length then .csv
  else .unknown

def detectImportFormat (content fileName : String) : ImportFormat :=
  detectFormat toLowerCase parse csvFormat content fileName

def parsePasswordImport (content : String) (format : ImportFormat) : Except TypeError Imported :=
  match format with
  | .bitwarden => parseBitwardenJson isUrl parse content
  | .onePassword => .ok (parseOnePassword (parsePasswordCsv toLowerCase isUrl) content)
  | .genericJson => parseGenericLoginJson isUrl parse content
  | .csv => .ok (parsePasswordCsv toLowerCase isUrl content)
  | _ => .ok {}

end Web

namespace Desktop

def csvFormat (firstLine : List Char) : ImportFormat :=
  if includes firstLine "signon_realm" then .firefox
  else if includes firstLine "grouping" || (includes firstLine "fav" && includes firstLine "totp") then .lastpass
  else if includes firstLine "type" || includes firstLine "vault" || includes firstLine "login_uri" then .onePassword
  else if includes firstLine "name" && includes firstLine "url" && includes firstLine "username" &&
      includes firstLine "password" && includes firstLine "note" then .chrome
  else if includes firstLine "url" || includes firstLine "name" || includes firstLine "title" ||
      includes firstLine "username" || includes firstLine "password" || includes firstLine "website" then .csv
  else if 0 < firstLine.length then .csv
  else .unknown

def detectImportFormat (content fileName : String) : ImportFormat :=
  detectFormat toLowerCase parse csvFormat content fileName

def parsePasswordImport (content : String) (format : ImportFormat) : Except TypeError Imported :=
  match format with
  | .chrome | .csv | .lastpass => .ok (parsePasswordCsv toLowerCase isUrl content none)
  | .firefox =>
    .ok (parsePasswordCsv toLowerCase isUrl content
      (some ⟨"signon_realm".toList, "username".toList, "password".toList, [], []⟩))
  | .bitwarden => parseBitwardenJson isUrl parse content
  | .onePassword => .ok (parseOnePassword (fun csv => parsePasswordCsv toLowerCase isUrl csv none) content)
  | .genericJson => parseGenericLoginJson isUrl parse content
  | .unknown => .ok {}

end Desktop

end

/-! ## Exports -/

/-- `"${value.replace(/"/g, '""')}"` -/
def escapeCsv (value : String) : List Char :=
  '"' :: value.toList.flatMap (fun c => if c = '"' then ['"', '"'] else [c]) ++ ['"']

namespace Web

structure CsvItem where
  title : String
  origin : String
  username : String
  password : String
  notes : String
deriving DecidableEq, Repr

def itemsToCsv (items : List CsvItem) : String :=
  let header := "name,url,username,password,note".toList
  let rows := items.map fun item =>
    List.intercalate [','] ([item.title, item.origin, item.username, item.password, item.notes].map escapeCsv)
  String.ofList (List.intercalate ['\n'] (header :: rows))

end Web

namespace Desktop

def csvHeaders : List String :=
  ["type", "title", "origin", "username", "password", "note", "cardholder_name", "card_number", "expiration_month",
    "expiration_year", "cvv", "folder"]

def csvValues (item : VaultItem) : List String :=
  match item.body with
  | .login origin username password _ _ =>
    ["login", item.title, origin, username, password, item.notes, "", "", "", "", "", item.folder]
  | .secureNote noteBody => ["secure_note", item.title, "", "", "", noteBody, "", "", "", "", "", item.folder]
  | .creditCard cardholderName cardNumber expirationMonth expirationYear cvv _ =>
    ["credit_card", item.title, "", "", "", item.notes, cardholderName, cardNumber, expirationMonth, expirationYear, cvv,
      item.folder]

def exportCsv (items : List VaultItem) : String :=
  let rows := items.map fun item => List.intercalate [','] ((csvValues item).map escapeCsv)
  String.ofList (List.intercalate ['\r', '\n'] (List.intercalate [','] (csvHeaders.map escapeCsv) :: rows))

end Desktop

end ZeroVault.Import
