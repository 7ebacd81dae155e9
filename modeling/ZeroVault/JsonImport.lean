import ZeroVault.PasswordImport

/-!
# JSON imports

The readers of JSON files go on to the next entry after one that they reject, but
they throw at a value of a type that they did not expect. `readableItem` and
`readableEntry` say which entries they can read; one that they cannot read ends
the import (`import_entrywise`).
-/

namespace ZeroVault.Import

open Lib

/-! ## Values without exceptions -/

/-- A property, where reading it does not throw. -/
def Json.prop (name : String) : Json → Option Json
  | .object fields => fields.lookup name
  | .array elements => if name = "length" then some (.number elements.length) else none
  | .string value => if name = "length" then some (.number (jsLength value)) else none
  | _ => none

def Json.isNull : Json → Bool
  | .null => true
  | _ => false

def isText : Option Json → Bool
  | none => true
  | some .null => true
  | some (.string _) => true
  | some _ => false

def textOf : Option Json → Option String
  | some (.string value) => some (trim value)
  | _ => none

/-- Missing, or nothing but white space. -/
def isBlank (value : Option Json) : Bool := ((textOf value).getD "").isEmpty

section
variable {value : Json} {field : Option Json} {name : String}

theorem get_eq (h : value.isNull = false) : value.get name = .ok (value.prop name) := by
  cases value <;> first | rfl | exact nomatch h

theorem get_null (h : value.isNull = true) : value.get name = .error .readOfNull := by
  cases value <;> first | rfl | exact nomatch h

theorem getOptional_eq : getOptional field name = .ok (field.bind (Json.prop name)) := by
  cases field with
  | none => rfl
  | some value => cases value <;> rfl

theorem trimOptional_eq (h : isText field = true) : trimOptional field = .ok (textOf field) := by
  cases field with
  | none => rfl
  | some value => cases value <;> first | rfl | exact nomatch h

theorem trimOptional_error (h : isText field = false) : trimOptional field = .error .notAFunction := by
  cases field with
  | none => exact nomatch h
  | some value => cases value <;> first | rfl | exact nomatch h

end

/-! ## Readers that go from entry to entry -/

def Imported.append (s t : Imported) : Imported := ⟨s.rows ++ t.rows, s.rejected + t.rejected⟩

def total {α : Type} (outcome : α → Imported) (entries : List α) : Imported :=
  ⟨entries.flatMap fun entry => (outcome entry).rows, (entries.map fun entry => (outcome entry).rejected).sum⟩

/-- A reader that adds the outcome of an entry, or fails at one that it cannot read. -/
structure EntryWise {α : Type} (read : Imported → α → Except TypeError Imported) (readable : α → Bool)
    (outcome : α → Imported) : Prop where
  ok : ∀ s entry, readable entry = true → read s entry = .ok (s.append (outcome entry))
  fails : ∀ s entry, readable entry = false → ∃ e, read s entry = .error e

section
variable {α : Type} {read : Imported → α → Except TypeError Imported} {readable : α → Bool} {outcome : α → Imported}
  {entries before after : List α} {s r : Imported} {entry : α}

@[simp] theorem append_nothing : s.append {} = s := by
  unfold Imported.append
  rw [List.append_nil, Nat.add_zero]

@[simp] theorem nothing_append : Imported.append {} s = s := by
  unfold Imported.append
  rw [List.nil_append, Nat.zero_add]

theorem total_cons : total outcome (entry :: entries) = (outcome entry).append (total outcome entries) := by
  unfold total Imported.append
  rw [List.flatMap_cons, List.map_cons, List.sum_cons]

theorem append_assoc {t u : Imported} : (s.append t).append u = s.append (t.append u) := by
  unfold Imported.append
  rw [List.append_assoc, Nat.add_assoc]

theorem EntryWise.run (h : EntryWise read readable outcome) : ∀ {entries : List α} {s : Imported},
    (∀ entry ∈ entries, readable entry = true) → entries.foldlM read s = .ok (s.append (total outcome entries))
  | [], s, _ => by
    change Except.ok s = .ok (s.append {})
    rw [append_nothing]
  | entry :: entries, s, hall => by
    obtain ⟨hentry, hrest⟩ := List.forall_mem_cons.mp hall
    rw [List.foldlM_cons, h.ok s entry hentry, total_cons, ← append_assoc]
    exact h.run hrest

theorem EntryWise.readable_of_run (h : EntryWise read readable outcome) : ∀ {entries : List α} {s r : Imported},
    entries.foldlM read s = .ok r → ∀ entry ∈ entries, readable entry = true
  | [], _, _, _ => fun _ hmem => absurd hmem List.not_mem_nil
  | entry :: entries, s, r, hr => by
    rw [List.foldlM_cons] at hr
    cases hread : readable entry with
    | false =>
      obtain ⟨e, he⟩ := h.fails s entry hread
      rw [he] at hr
      exact nomatch hr
    | true =>
      rw [h.ok s entry hread] at hr
      exact List.forall_mem_cons.mpr ⟨hread, h.readable_of_run hr⟩

theorem EntryWise.returns_iff (h : EntryWise read readable outcome) :
    (∃ r, entries.foldlM read {} = .ok r) ↔ ∀ entry ∈ entries, readable entry = true :=
  ⟨fun ⟨_, hr⟩ => h.readable_of_run hr, fun hall => ⟨_, h.run hall⟩⟩

/-- Inserted anywhere in a file, the entry leaves the rows of the others and is counted as rejected. -/
def Rejects {ι : Type} (load : ι → Except TypeError Imported) (holds : ι → List α → Prop) (entry : α) : Prop :=
  ∀ before after first last whole b a, holds first before → holds last after → holds whole (before ++ entry :: after) →
    load first = .ok b → load last = .ok a → ∃ r extra, load whole = .ok r ∧
      r.rows = b.rows ++ extra ++ a.rows ∧ b.rejected + a.rejected + 1 ≤ r.rejected

theorem EntryWise.rejects_iff {ι : Type} {load : ι → Except TypeError Imported} {holds : ι → List α → Prop}
    (h : EntryWise read readable outcome)
    (hload : ∀ file entries, holds file entries → load file = entries.foldlM read {})
    (hempty : ∃ file, holds file []) (hsingle : ∃ file, holds file [entry]) :
    Rejects load holds entry ↔ readable entry = true ∧ 0 < (outcome entry).rejected := by
  constructor
  · intro hrejects
    obtain ⟨empty, hempty⟩ := hempty
    obtain ⟨single, hsingle⟩ := hsingle
    have hnothing : load empty = .ok {} := hload empty [] hempty
    obtain ⟨r, extra, hr, -, hcount⟩ := hrejects [] [] empty empty single {} {} hempty hempty hsingle hnothing hnothing
    rw [hload single [entry] hsingle] at hr
    have hread := h.readable_of_run hr entry (List.mem_singleton_self entry)
    obtain rfl := Except.ok.inj ((h.run (List.forall_mem_singleton.mpr hread)).symm.trans hr)
    rw [total_cons] at hcount
    change 0 + 0 + 1 ≤ 0 + ((outcome entry).rejected + 0) at hcount
    exact ⟨hread, by omega⟩
  · rintro ⟨hread, hpos⟩ before after first last whole b a hfirst hlast hwhole hb ha
    rw [hload first before hfirst] at hb
    rw [hload last after hlast] at ha
    have hbefore := h.readable_of_run hb
    have hafter := h.readable_of_run ha
    have hall : ∀ other ∈ before ++ entry :: after, readable other = true :=
      List.forall_mem_append.mpr ⟨hbefore, List.forall_mem_cons.mpr ⟨hread, hafter⟩⟩
    obtain rfl := Except.ok.inj ((h.run hbefore).symm.trans hb)
    obtain rfl := Except.ok.inj ((h.run hafter).symm.trans ha)
    refine ⟨_, (outcome entry).rows, (hload whole _ hwhole).trans (h.run hall), ?_, ?_⟩
    · change [] ++ (before ++ entry :: after).flatMap _ = ([] ++ before.flatMap _) ++ _ ++ ([] ++ after.flatMap _)
      rw [List.flatMap_append, List.flatMap_cons, List.nil_append, List.nil_append, List.nil_append, List.append_assoc]
    · change 0 + (before.map _).sum + (0 + (after.map _).sum) + 1 ≤ 0 + ((before ++ entry :: after).map _).sum
      rw [List.map_append, List.sum_append, List.map_cons, List.sum_cons]
      omega

end

/-! ## Entries of a Bitwarden file -/

def Json.isNumberZero : Option Json → Bool
  | some (.number n) => n == 0
  | _ => false

/-- The elements that a loop takes, where it does not throw. -/
def Json.elements : Json → List Json
  | .array elements => elements
  | .string value => value.toList.map fun c => .string (String.singleton c)
  | _ => []

def Json.isIterable : Json → Bool
  | .array _ => true
  | .string _ => true
  | _ => false

def readableUri (uriObj : Json) : Bool := !uriObj.isNull && isText (uriObj.prop "uri")

def readableItem (item : Json) : Bool :=
  let login := item.prop "login"
  let uris := orEmpty (login.bind (Json.prop "uris"))
  !item.isNull && isText (login.bind (Json.prop "username")) && isText (login.bind (Json.prop "password")) &&
    isText (item.prop "name") && isText (item.prop "notes") &&
    (isBlank (login.bind (Json.prop "password")) || Json.isNumberZero (uris.prop "length") ||
      (uris.isIterable && uris.elements.all readableUri))

def itemCandidate (item : Json) (origin : String) : ImportLoginRow where
  origin
  username := (textOf ((item.prop "login").bind (Json.prop "username"))).getD ""
  password := (textOf ((item.prop "login").bind (Json.prop "password"))).getD ""
  title := (textOf (item.prop "name")).bind orUndefined
  notes := (textOf (item.prop "notes")).bind orUndefined

def itemCandidates (item : Json) : List ImportLoginRow :=
  let uris := orEmpty ((item.prop "login").bind (Json.prop "uris"))
  if Json.isNumberZero (uris.prop "length") then [itemCandidate item ""]
  else uris.elements.map fun uriObj => itemCandidate item ((textOf (uriObj.prop "uri")).getD "")

section
variable {isUrl : String → Bool} {value item uriObj : Json} {s : Imported} {candidate : String → ImportLoginRow}
  {candidates : List ImportLoginRow}

def ofCandidates (isUrl : String → Bool) (candidates : List ImportLoginRow) : Imported :=
  ⟨candidates.filter (importLoginRowSchema isUrl), candidates.countP (!importLoginRowSchema isUrl ·)⟩

def itemOutcome (isUrl : String → Bool) (item : Json) : Imported :=
  if isBlank ((item.prop "login").bind (Json.prop "password")) then ⟨[], 1⟩ else ofCandidates isUrl (itemCandidates item)

theorem ofCandidates_cons {row : ImportLoginRow} :
    s.append (ofCandidates isUrl (row :: candidates)) = (s.add isUrl row).append (ofCandidates isUrl candidates) := by
  unfold Imported.add Imported.append ofCandidates
  cases haccept : importLoginRowSchema isUrl row with
  | true => simp [haccept]
  | false =>
    simp [haccept]
    omega

theorem add_eq {row : ImportLoginRow} : s.add isUrl row = s.append (ofCandidates isUrl [row]) := by
  rw [ofCandidates_cons]
  exact append_nothing.symm

theorem parseUri_entryWise : EntryWise (parseUri isUrl candidate) readableUri
    fun uriObj => ofCandidates isUrl [candidate ((textOf (uriObj.prop "uri")).getD "")] where
  ok s uriObj h := by
    unfold readableUri at h
    rw [Bool.and_eq_true, Bool.not_eq_true'] at h
    unfold parseUri
    rw [get_eq h.1, ← add_eq]
    change (trimOptional _ >>= _) = _
    rw [trimOptional_eq h.2]
    rfl
  fails s uriObj h := by
    unfold readableUri at h
    unfold parseUri
    cases hnull : uriObj.isNull with
    | true =>
      rw [get_null hnull]
      exact ⟨_, rfl⟩
    | false =>
      rw [hnull] at h
      rw [get_eq hnull]
      refine ⟨.notAFunction, ?_⟩
      change (trimOptional _ >>= _) = _
      rw [trimOptional_error h]
      rfl

theorem total_uris : ∀ {uris : List Json},
    total (fun uriObj => ofCandidates isUrl [candidate ((textOf (uriObj.prop "uri")).getD "")]) uris =
      ofCandidates isUrl (uris.map fun uriObj => candidate ((textOf (uriObj.prop "uri")).getD ""))
  | [] => rfl
  | uriObj :: uris => by
    have hcons : Imported.append {} (ofCandidates isUrl (candidate ((textOf (uriObj.prop "uri")).getD "") ::
        uris.map fun uriObj => candidate ((textOf (uriObj.prop "uri")).getD ""))) = _ := ofCandidates_cons
    rw [nothing_append, add_eq, nothing_append] at hcons
    rw [total_cons, total_uris, List.map_cons, hcons]

theorem append_rejected : s.append ⟨[], 1⟩ = { s with rejected := s.rejected + 1 } := by
  unfold Imported.append
  rw [List.append_nil]

theorem iterate_eq (h : value.isIterable = true) : value.iterate = .ok value.elements := by
  cases value <;> first | rfl | exact nomatch h

theorem iterate_error (h : value.isIterable = false) : value.iterate = .error .notIterable := by
  cases value <;> first | rfl | exact nomatch h

theorem isNull_orEmpty {field : Option Json} : (orEmpty field).isNull = false := by
  cases field with
  | none => rfl
  | some value => cases value <;> rfl

theorem isEmpty_eq (h : value.isNull = false) : value.isEmpty = .ok (Json.isNumberZero (value.prop "length")) := by
  unfold Json.isEmpty
  rw [get_eq h]
  cases hlength : value.prop "length" with
  | none => rfl
  | some length => cases length <;> rfl

theorem parseBitwardenItem_entryWise : EntryWise (parseBitwardenItem isUrl) readableItem (itemOutcome isUrl) where
  ok s item h := by
    unfold readableItem at h
    simp only [Bool.and_eq_true, Bool.not_eq_true', Bool.or_eq_true] at h
    obtain ⟨⟨⟨⟨⟨hnull, husername⟩, hpassword⟩, hname⟩, hnotes⟩, huris⟩ := h
    unfold parseBitwardenItem itemOutcome itemCandidates
    simp only [get_eq hnull, getOptional_eq, bind, Except.bind, trimOptional_eq husername, trimOptional_eq hpassword,
      trimOptional_eq hname, trimOptional_eq hnotes, isEmpty_eq isNull_orEmpty]
    unfold isBlank at huris ⊢
    split
    · rw [append_rejected]
      rfl
    · rename_i hfilled
      split
      · rw [← add_eq]
        rfl
      · rename_i hlong
        obtain ⟨hiterable, hall⟩ := huris.resolve_left (not_or.mpr ⟨hfilled, hlong⟩)
        rw [iterate_eq hiterable]
        dsimp only
        rw [parseUri_entryWise.run (List.all_eq_true.mp hall)]
        exact congrArg (fun t => Except.ok (s.append t)) (@total_uris isUrl (itemCandidate item) _)
  fails s item h := by
    unfold parseBitwardenItem
    cases hnull : item.isNull with
    | true =>
      rw [get_null hnull]
      exact ⟨_, rfl⟩
    | false =>
      simp only [get_eq hnull, getOptional_eq, bind, Except.bind]
      cases husername : isText ((item.prop "login").bind (Json.prop "username")) with
      | false => exact ⟨_, by rw [trimOptional_error husername]⟩
      | true =>
        simp only [trimOptional_eq husername]
        cases hpassword : isText ((item.prop "login").bind (Json.prop "password")) with
        | false => exact ⟨_, by rw [trimOptional_error hpassword]⟩
        | true =>
          simp only [trimOptional_eq hpassword]
          cases hname : isText (item.prop "name") with
          | false => exact ⟨_, by rw [trimOptional_error hname]⟩
          | true =>
            simp only [trimOptional_eq hname]
            cases hnotes : isText (item.prop "notes") with
            | false => exact ⟨_, by rw [trimOptional_error hnotes]⟩
            | true =>
              simp only [trimOptional_eq hnotes, isEmpty_eq isNull_orEmpty]
              unfold readableItem at h
              simp only [hnull, husername, hpassword, hname, hnotes, Bool.not_false, Bool.true_and, Bool.or_eq_false_iff,
                Bool.and_eq_false_iff] at h
              obtain ⟨⟨hfilled, hlong⟩, huris⟩ := h
              unfold isBlank at hfilled
              simp only [hfilled, hlong, Bool.false_eq_true, if_false]
              cases hiterable : (orEmpty ((item.prop "login").bind (Json.prop "uris"))).isIterable with
              | false => exact ⟨_, by rw [iterate_error hiterable]⟩
              | true =>
                simp only [iterate_eq hiterable]
                have hbad := huris.resolve_left (by rw [hiterable]; decide)
                generalize hrun : List.foldlM (parseUri isUrl _) s _ = run
                cases run with
                | error e => exact ⟨e, rfl⟩
                | ok r =>
                  have hall := List.all_eq_true.mpr (parseUri_entryWise.readable_of_run hrun)
                  exact absurd (hbad.symm.trans hall) Bool.false_ne_true

end

/-! ## Entries of a generic file -/

def readableTexts (entry : Json) : List String → Bool
  | [] => true
  | name :: names => isText (entry.prop name) && (!isBlank (entry.prop name) || readableTexts entry names)

def readableEntry (entry : Json) : Bool :=
  !entry.isObject || (isText (entry.prop "password") && (isBlank (entry.prop "password") ||
    (readableTexts entry ["url", "origin", "website"] && isText (entry.prop "username") &&
      readableTexts entry ["name", "title"] && readableTexts entry ["notes"])))

def firstOf (entry : Json) (names : List String) : Option String :=
  names.findSome? fun name => (textOf (entry.prop name)).bind orUndefined

def entryCandidate (entry : Json) : ImportLoginRow where
  origin := (firstOf entry ["url", "origin", "website"]).getD ""
  username := (textOf (entry.prop "username")).getD ""
  password := (textOf (entry.prop "password")).getD ""
  title := firstOf entry ["name", "title"]
  notes := firstOf entry ["notes"]

def entryOutcome (isUrl : String → Bool) (entry : Json) : Imported :=
  if !entry.isObject || isBlank (entry.prop "password") then ⟨[], 1⟩ else ofCandidates isUrl [entryCandidate entry]

section
variable {isUrl : String → Bool} {entry : Json} {field : Option Json}

theorem isBlank_iff : isBlank field = ((textOf field).bind orUndefined).isNone := by
  unfold isBlank
  cases htext : textOf field with
  | none => rfl
  | some value =>
    rw [Option.getD_some, Option.bind_some]
    unfold orUndefined
    cases hempty : value.isEmpty <;> rfl

theorem firstText_eq (hnull : entry.isNull = false) : ∀ {names : List String}, readableTexts entry names = true →
    firstText entry names = .ok (firstOf entry names)
  | [], _ => rfl
  | name :: names, h => by
    unfold readableTexts at h
    rw [Bool.and_eq_true, isBlank_iff] at h
    unfold firstText firstOf
    simp only [get_eq hnull, bind, Except.bind, trimOptional_eq h.1, List.findSome?_cons]
    cases hvalue : (textOf (entry.prop name)).bind orUndefined with
    | some value => rfl
    | none =>
      rw [hvalue] at h
      exact firstText_eq hnull h.2

theorem firstText_error (hnull : entry.isNull = false) : ∀ {names : List String}, readableTexts entry names = false →
    firstText entry names = .error .notAFunction
  | [], h => nomatch h
  | name :: names, h => by
    unfold readableTexts at h
    rw [isBlank_iff] at h
    unfold firstText
    simp only [get_eq hnull, bind, Except.bind]
    cases htext : isText (entry.prop name) with
    | false => rw [trimOptional_error htext]
    | true =>
      simp only [trimOptional_eq htext]
      cases hvalue : (textOf (entry.prop name)).bind orUndefined with
      | some value =>
        rw [htext, hvalue] at h
        exact nomatch h
      | none =>
        rw [htext, hvalue] at h
        exact firstText_error hnull h

theorem isNull_of_isObject (h : entry.isObject = true) : entry.isNull = false := by
  cases entry <;> first | rfl | exact nomatch h

theorem parseGenericLogin_entryWise : EntryWise (parseGenericLogin isUrl) readableEntry (entryOutcome isUrl) where
  ok s entry h := by
    unfold parseGenericLogin entryOutcome
    cases hobject : entry.isObject with
    | false => exact congrArg Except.ok append_rejected.symm
    | true =>
      have hnull := isNull_of_isObject hobject
      unfold readableEntry at h
      rw [hobject, Bool.not_true, Bool.false_or, Bool.and_eq_true] at h
      simp only [get_eq hnull, bind, Except.bind, trimOptional_eq h.1]
      cases hblank : isBlank (entry.prop "password") with
      | true =>
        unfold isBlank at hblank
        rw [hblank]
        exact congrArg Except.ok append_rejected.symm
      | false =>
        have hrest := h.2
        simp only [hblank, Bool.false_or, Bool.and_eq_true] at hrest
        obtain ⟨⟨⟨horigin, husername⟩, htitle⟩, hnotes⟩ := hrest
        unfold isBlank at hblank
        simp only [hblank, firstText_eq hnull horigin, trimOptional_eq husername, firstText_eq hnull htitle,
          firstText_eq hnull hnotes, Bool.not_true, Bool.or_self, Bool.false_eq_true, if_false]
        rw [← add_eq]
        rfl
  fails s entry h := by
    unfold readableEntry at h
    rw [Bool.or_eq_false_iff, Bool.not_eq_false'] at h
    obtain ⟨hobject, h⟩ := h
    have hnull := isNull_of_isObject hobject
    unfold parseGenericLogin
    simp only [hobject, Bool.not_true, Bool.false_eq_true, if_false, get_eq hnull, bind, Except.bind]
    cases hpassword : isText (entry.prop "password") with
    | false => exact ⟨_, by rw [trimOptional_error hpassword]⟩
    | true =>
      simp only [hpassword, Bool.true_and, Bool.or_eq_false_iff, Bool.and_eq_false_iff] at h
      obtain ⟨hblank, hrest⟩ := h
      unfold isBlank at hblank
      simp only [trimOptional_eq hpassword, hblank, Bool.false_eq_true, if_false]
      cases horigin : readableTexts entry ["url", "origin", "website"] with
      | false => exact ⟨_, by rw [firstText_error hnull horigin]⟩
      | true =>
        simp only [firstText_eq hnull horigin]
        cases husername : isText (entry.prop "username") with
        | false => exact ⟨_, by rw [trimOptional_error husername]⟩
        | true =>
          simp only [trimOptional_eq husername]
          cases htitle : readableTexts entry ["name", "title"] with
          | false => exact ⟨_, by rw [firstText_error hnull htitle]⟩
          | true =>
            simp only [firstText_eq hnull htitle]
            cases hnotes : readableTexts entry ["notes"] with
            | false => exact ⟨_, by rw [firstText_error hnull hnotes]⟩
            | true => simp [horigin, husername, htitle, hnotes] at hrest

end

/-! ## Files -/

def BitwardenFile (parse : String → Option Json) (content : String) (items : List Json) : Prop :=
  ∃ fields, parse (trim content) = some (.object fields) ∧ fields.lookup "items" = some (.array items)

def GenericFile (parse : String → Option Json) (content : String) (entries : List Json) : Prop :=
  parse (trim content) = some (.array entries)

def readableFile (parse : String → Option Json) (content : String) : ImportFormat → Bool
  | .bitwarden =>
    match parse (trim content) with
    | none => true
    | some data =>
      let items := orEmpty (data.prop "items")
      !data.isNull && items.isIterable && items.elements.all readableItem
  | .genericJson =>
    match parse (trim content) with
    | some (.array entries) => entries.all readableEntry
    | _ => true
  | _ => true

def completeItem (isUrl : String → Bool) (item : Json) : Bool :=
  !isBlank ((item.prop "login").bind (Json.prop "password")) && (itemCandidates item).all (importLoginRowSchema isUrl)

def completeEntry (isUrl : String → Bool) (entry : Json) : Bool :=
  entry.isObject && !isBlank (entry.prop "password") && importLoginRowSchema isUrl (entryCandidate entry)

section
variable {toLowerCase : List Char → List Char} {isUrl : String → Bool} {parse : String → Option Json} {content : String}
  {item entry : Json} {items entries : List Json} {candidates : List ImportLoginRow}

theorem rejected_ofCandidates : 0 < (ofCandidates isUrl candidates).rejected ↔
    candidates.all (importLoginRowSchema isUrl) = false := by
  change 0 < candidates.countP _ ↔ _
  rw [List.countP_pos_iff, List.all_eq_false]
  simp

theorem rejected_item : 0 < (itemOutcome isUrl item).rejected ↔ completeItem isUrl item = false := by
  unfold itemOutcome completeItem
  cases isBlank ((item.prop "login").bind (Json.prop "password")) with
  | true => exact iff_of_true Nat.one_pos rfl
  | false => exact rejected_ofCandidates

theorem rejected_entry : 0 < (entryOutcome isUrl entry).rejected ↔ completeEntry isUrl entry = false := by
  unfold entryOutcome completeEntry
  cases entry.isObject with
  | false => exact iff_of_true Nat.one_pos rfl
  | true =>
    cases isBlank (entry.prop "password") with
    | true => exact iff_of_true Nat.one_pos rfl
    | false =>
      refine rejected_ofCandidates.trans ?_
      simp

theorem bitwarden_run (h : BitwardenFile parse content items) :
    Web.parsePasswordImport toLowerCase isUrl parse content .bitwarden = items.foldlM (parseBitwardenItem isUrl) {} := by
  obtain ⟨fields, hparse, hitems⟩ := h
  unfold Web.parsePasswordImport parseBitwardenJson
  dsimp only
  rw [hparse]
  change (Except.ok (fields.lookup "items") >>= _) = _
  rw [hitems]
  rfl

theorem generic_run (h : GenericFile parse content entries) :
    Web.parsePasswordImport toLowerCase isUrl parse content .genericJson = entries.foldlM (parseGenericLogin isUrl) {} := by
  unfold Web.parsePasswordImport parseGenericLoginJson
  dsimp only
  rw [h]

theorem returns_iff {format : ImportFormat} :
    (∃ r, Web.parsePasswordImport toLowerCase isUrl parse content format = .ok r) ↔
      readableFile parse content format = true := by
  cases format with
  | bitwarden =>
    unfold Web.parsePasswordImport parseBitwardenJson readableFile
    dsimp only
    cases parse (trim content) with
    | none => exact iff_of_true ⟨_, rfl⟩ rfl
    | some data =>
      dsimp only
      cases hnull : data.isNull with
      | true =>
        rw [get_null hnull]
        exact iff_of_false (fun ⟨_, h⟩ => nomatch h) Bool.false_ne_true
      | false =>
        simp only [get_eq hnull, bind, Except.bind]
        cases hiterable : (orEmpty (data.prop "items")).isIterable with
        | false =>
          rw [iterate_error hiterable]
          exact iff_of_false (fun ⟨_, h⟩ => nomatch h) Bool.false_ne_true
        | true =>
          rw [iterate_eq hiterable]
          dsimp only
          rw [parseBitwardenItem_entryWise.returns_iff, ← List.all_eq_true]
          simp
  | genericJson =>
    unfold Web.parsePasswordImport parseGenericLoginJson readableFile
    dsimp only
    cases parse (trim content) with
    | none => exact iff_of_true ⟨_, rfl⟩ rfl
    | some data =>
      cases data with
      | array entries =>
        dsimp only
        rw [parseGenericLogin_entryWise.returns_iff, ← List.all_eq_true]
      | _ => exact iff_of_true ⟨_, rfl⟩ rfl
  | _ => exact iff_of_true ⟨_, rfl⟩ rfl

/-- The import returns when every value that it reads is of a type that it can read, and an entry is rejected by itself
when it can be read and is not complete. -/
theorem import_entrywise :
    (∀ content format, (∃ r, Web.parsePasswordImport toLowerCase isUrl parse content format = .ok r) ↔
      readableFile parse content format = true) ∧
    (∀ item, (∃ content, BitwardenFile parse content []) → (∃ content, BitwardenFile parse content [item]) →
      (Rejects (Web.parsePasswordImport toLowerCase isUrl parse · .bitwarden) (BitwardenFile parse) item ↔
        readableItem item = true ∧ completeItem isUrl item = false)) ∧
    ∀ entry, (∃ content, GenericFile parse content []) → (∃ content, GenericFile parse content [entry]) →
      (Rejects (Web.parsePasswordImport toLowerCase isUrl parse · .genericJson) (GenericFile parse) entry ↔
        readableEntry entry = true ∧ completeEntry isUrl entry = false) := by
  refine ⟨fun _ _ => returns_iff, fun item hempty hsingle => ?_, fun entry hempty hsingle => ?_⟩
  · rw [← rejected_item]
    exact parseBitwardenItem_entryWise.rejects_iff (fun _ _ h => bitwarden_run h) hempty hsingle
  · rw [← rejected_entry]
    exact parseGenericLogin_entryWise.rejects_iff (fun _ _ h => generic_run h) hempty hsingle

end

/-! ## One bad entry -/

def isHttps (value : String) : Bool := decide ("https://".toList <+: value.toList)

def goodEntry : Json := .object [("url", .string "https://example.com"), ("password", .string "secret")]

def parsed : List (String × Json) :=
  [("[]", .array []),
    ("[null]", .array [.null]),
    ("[good]", .array [goodEntry]),
    ("[good, number]", .array [goodEntry, .object [("url", .string "https://example.com"), ("password", .number 5)]]),
    ("[good, null]", .array [goodEntry, .null]),
    ("no items", .object [("items", .array [])]),
    ("one item", .object [("items", .array [.object [("login", .object [("password", .string "")])]])]),
    ("null item", .object [("items", .array [.null])])]

def sampleParse (text : String) : Option Json := parsed.lookup text

/-- The entry `null` is counted and the good entry beside it kept. -/
theorem import_entrywise_null :
    (∃ r, Web.parsePasswordImport id isHttps sampleParse "[good, null]" .genericJson = .ok r) ∧
    Rejects (Web.parsePasswordImport id isHttps sampleParse · .genericJson) (GenericFile sampleParse) .null ∧
    Rejects (Web.parsePasswordImport id isHttps sampleParse · .bitwarden) (BitwardenFile sampleParse)
      (.object [("login", .object [("password", .string "")])]) := by
  obtain ⟨hreturns, hitem, hentry⟩ := @import_entrywise id isHttps sampleParse
  refine ⟨(hreturns "[good, null]" .genericJson).mpr (by decide +kernel), ?_, ?_⟩
  · have hempty : GenericFile sampleParse "[]" [] := congrArg sampleParse (by decide +kernel : trim "[]" = "[]")
    have hsingle : GenericFile sampleParse "[null]" [.null] :=
      congrArg sampleParse (by decide +kernel : trim "[null]" = "[null]")
    exact (hentry .null ⟨_, hempty⟩ ⟨_, hsingle⟩).mpr (by decide +kernel)
  · have hempty : BitwardenFile sampleParse "no items" [] :=
      ⟨_, congrArg sampleParse (by decide +kernel : trim "no items" = "no items"), rfl⟩
    have hsingle : BitwardenFile sampleParse "one item" [.object [("login", .object [("password", .string "")])]] :=
      ⟨_, congrArg sampleParse (by decide +kernel : trim "one item" = "one item"), rfl⟩
    exact (hitem _ ⟨_, hempty⟩ ⟨_, hsingle⟩).mpr (by decide +kernel)

/-- A password that is a number, or an item that is `null`, ends the import; the good entry is lost with it. -/
theorem import_throws :
    Web.parsePasswordImport id isHttps sampleParse "[good]" .genericJson =
      .ok ⟨[⟨"https://example.com", "", "secret", none, none⟩], 0⟩ ∧
    Web.parsePasswordImport id isHttps sampleParse "[good, number]" .genericJson = .error .notAFunction ∧
    Web.parsePasswordImport id isHttps sampleParse "null item" .bitwarden = .error .readOfNull := by
  have hgood : sampleParse (trim "[good]") = some (.array [goodEntry]) :=
    congrArg sampleParse (by decide +kernel : trim "[good]" = "[good]")
  refine ⟨?_, ?_, ?_⟩
  · exact (generic_run hgood).trans (by decide +kernel)
  · exact (generic_run (congrArg sampleParse (by decide +kernel : trim "[good, number]" = "[good, number]"))).trans
      (by decide +kernel)
  · exact (bitwarden_run ⟨_, congrArg sampleParse (by decide +kernel : trim "null item" = "null item"), rfl⟩).trans
      (by decide +kernel)

end ZeroVault.Import

