import ZeroVault.PasswordImport
import ZeroVault.TokenSearch

/-!
# CSV round trips

A quoted cell is read back as it was written, then trimmed; but lines are cut
before quotes are looked at. So a file is read back exactly when no value has a
line feed and every imported value is its own trim (`csv_round_trip`).
-/

namespace ZeroVault.Import

open Lib
open Browser (VaultItem)

/-! ## One line -/

def csvRow (values : List String) : List Char := List.intercalate [','] (values.map escapeCsv)

section
variable {char : Char} {rest current text : List Char} {quoted : Bool} {cells : List (List Char)} {values : List String}
  {value : String}

theorem splitCsvLoop_char (hquote : char ≠ '"') (hcomma : char = ',' → quoted = true) :
    splitCsvLoop (char :: rest) current quoted cells = splitCsvLoop rest (current ++ [char]) quoted cells := by
  cases quoted with
  | true => simp [splitCsvLoop, hquote]
  | false =>
    have hne : char ≠ ',' := fun he => Bool.false_ne_true (hcomma he)
    simp [splitCsvLoop, hne]

theorem splitCsvLoop_open : splitCsvLoop ('"' :: rest) current false cells = splitCsvLoop rest current true cells := by
  cases rest <;> simp [splitCsvLoop]

theorem splitCsvLoop_comma : splitCsvLoop (',' :: rest) current false cells = splitCsvLoop rest [] false (cells ++ [current]) := by
  simp [splitCsvLoop]

theorem splitCsvLoop_close (h : rest.head? ≠ some '"') :
    splitCsvLoop ('"' :: rest) current true cells = splitCsvLoop rest current false cells := by
  cases rest with
  | nil => rfl
  | cons c rest =>
    have hc : c ≠ '"' := fun he => h (by rw [he]; rfl)
    simp [splitCsvLoop, hc]

theorem splitCsvLoop_cell (h : rest.head? ≠ some '"') : ∀ {text current : List Char},
    splitCsvLoop (text.flatMap (fun c => if c = '"' then ['"', '"'] else [c]) ++ '"' :: rest) current true cells =
      splitCsvLoop rest (current ++ text) false cells
  | [], current => by
    rw [List.append_nil]
    exact splitCsvLoop_close h
  | c :: text, current => by
    rw [List.flatMap_cons, List.append_assoc, List.append_cons current c text, ← splitCsvLoop_cell h]
    by_cases hc : c = '"'
    · subst hc
      rfl
    · rw [if_neg hc, List.singleton_append, splitCsvLoop_char hc fun _ => rfl]

theorem splitCsvLoop_row : ∀ {values : List String} {cells : List (List Char)}, values ≠ [] →
    splitCsvLoop (csvRow values) [] false cells = cells ++ values.map String.toList
  | [], _, hne => absurd rfl hne
  | [value], cells, _ => by
    have hcell : csvRow [value] = '"' :: (value.toList.flatMap (fun c => if c = '"' then ['"', '"'] else [c]) ++ ['"']) := by
      unfold csvRow
      rw [List.map_singleton, List.intercalate_singleton]
      rfl
    have hend : ([] : List Char).head? ≠ some '"' := nofun
    rw [hcell, splitCsvLoop_open, splitCsvLoop_cell hend]
    rfl
  | value :: value' :: values, cells, _ => by
    have hcell : csvRow (value :: value' :: values) =
        '"' :: (value.toList.flatMap (fun c => if c = '"' then ['"', '"'] else [c]) ++
          '"' :: ',' :: csvRow (value' :: values)) := by
      unfold csvRow
      rw [List.map_cons, List.map_cons, List.intercalate_cons_cons]
      unfold escapeCsv
      simp
    have hend : (',' :: csvRow (value' :: values)).head? ≠ some '"' := fun h => absurd (Option.some.inj h) (by decide)
    rw [hcell, splitCsvLoop_open, splitCsvLoop_cell hend, splitCsvLoop_comma,
      splitCsvLoop_row (List.cons_ne_nil _ _), List.nil_append, List.append_assoc]
    rfl

theorem splitCsvLine_row (h : values ≠ []) : splitCsvLine (csvRow values) = values.map fun value => trimJs value.toList := by
  unfold splitCsvLine
  rw [splitCsvLoop_row h, List.nil_append, List.map_map]
  rfl

end

/-! ## The lines of a file -/

def solid (c : Char) : Bool := !isJsSpace c

section
variable {line text header sep : List Char} {values : List String} {value : String} {rows : List (List String)}

theorem trimJs_eq_nil : trimJs line = [] ↔ ∀ c ∈ line, isJsSpace c = true := by
  unfold trimJs
  rw [List.reverse_eq_nil_iff, List.dropWhile_eq_nil_iff]
  simp only [List.mem_reverse]
  constructor
  · intro h c hc
    by_contra hsolid
    have hkept : c ∈ line.dropWhile isJsSpace := by
      rw [← List.takeWhile_append_dropWhile (p := isJsSpace) (l := line), List.mem_append] at hc
      exact hc.resolve_left fun hbefore => hsolid (List.mem_takeWhile_imp hbefore)
    exact hsolid (h c hkept)
  · exact fun h c hc => h c ((List.dropWhile_suffix _).subset hc)

theorem solid_line : (!(trimJs line).isEmpty) = line.any solid := by
  rw [Bool.eq_iff_iff, Bool.not_eq_true', ← Bool.not_eq_true, List.isEmpty_iff, trimJs_eq_nil, List.any_eq_true]
  unfold solid
  push Not
  simp

theorem csvRow_cons {other : String} {rest : List String} :
    csvRow (value :: other :: rest) = escapeCsv value ++ ',' :: csvRow (other :: rest) := by
  unfold csvRow
  rw [List.map_cons, List.map_cons, List.intercalate_cons_cons]
  simp

theorem csvRow_singleton : csvRow [value] = escapeCsv value := by
  unfold csvRow
  rw [List.map_singleton, List.intercalate_singleton]

theorem csvRow_ends : ∀ {values : List String}, values ≠ [] → ∃ middle, csvRow values = '"' :: middle ++ ['"']
  | [], h => absurd rfl h
  | [value], _ => ⟨_, csvRow_singleton⟩
  | value :: other :: rest, _ => by
    obtain ⟨middle, hmiddle⟩ := csvRow_ends (List.cons_ne_nil other rest)
    refine ⟨value.toList.flatMap (fun c => if c = '"' then ['"', '"'] else [c]) ++ '"' :: ',' :: '"' :: middle, ?_⟩
    rw [csvRow_cons, hmiddle]
    unfold escapeCsv
    simp

theorem mem_escapeCsv {c : Char} (hquote : c ≠ '"') : c ∈ escapeCsv value ↔ c ∈ value.toList := by
  have hcell : c ∈ value.toList.flatMap (fun c => if c = '"' then ['"', '"'] else [c]) ↔ c ∈ value.toList := by
    rw [List.mem_flatMap]
    constructor
    · rintro ⟨d, hd, hc⟩
      split at hc
      · exact absurd (by simpa using hc) hquote
      · rwa [List.mem_singleton.mp hc]
    · intro hc
      refine ⟨c, hc, ?_⟩
      rw [if_neg hquote]
      exact List.mem_singleton_self c
  unfold escapeCsv
  simp [hcell, hquote]

theorem mem_csvRow {c : Char} (hquote : c ≠ '"') (hcomma : c ≠ ',') : ∀ {values : List String},
    c ∈ csvRow values ↔ ∃ value ∈ values, c ∈ value.toList
  | [] => by simp [csvRow]
  | [value] => by simp [csvRow_singleton, mem_escapeCsv hquote]
  | value :: other :: rest => by
    rw [csvRow_cons, List.mem_append, mem_escapeCsv hquote, List.mem_cons, mem_csvRow hquote hcomma, List.exists_mem_cons_iff]
    simp [hcomma]

/-- A header that is read as one line. -/
structure Header (header : List Char) : Prop where
  feed : '\n' ∉ header
  last : header.getLast? ≠ some '\r'
  mark : header.head? ≠ some '\uFEFF'
  solid : header.any solid = true

def fileText (sep header : List Char) (rows : List (List String)) : List Char :=
  List.intercalate sep (header :: rows.map csvRow)

theorem fileText_head (h : Header header) : (fileText sep header rows).head? = header.head? := by
  cases header with
  | nil => exact absurd h.solid Bool.false_ne_true
  | cons c cs =>
    unfold fileText
    cases rows with
    | nil => rw [List.map_nil, List.intercalate_singleton]
    | cons row rows =>
      rw [List.map_cons, List.intercalate_cons_cons]
      rfl

theorem csvLines_eq (h : Header header) : csvLines (fileText sep header rows) =
    (Lines.split (fileText sep header rows)).filter (·.any solid) := by
  unfold csvLines
  rw [fileText_head h, if_neg h.mark]
  exact List.filter_congr fun line _ => solid_line

theorem csvLines_clean (hsep : Lines.Break sep) (h : Header header)
    (hrows : ∀ values ∈ rows, values ≠ [] ∧ ∀ value ∈ values, '\n' ∉ value.toList) :
    csvLines (fileText sep header rows) = header :: rows.map csvRow := by
  have hlines : ∀ line ∈ header :: rows.map csvRow,
      ('\n' ∉ line ∧ line.getLast? ≠ some '\r') ∧ line.any solid = true := by
    refine List.forall_mem_cons.mpr ⟨⟨⟨h.feed, h.last⟩, h.solid⟩, List.forall_mem_map.mpr fun values hvalues => ?_⟩
    obtain ⟨hne, hfeed⟩ := hrows values hvalues
    obtain ⟨middle, hmiddle⟩ := csvRow_ends hne
    refine ⟨⟨fun hmem => ?_, ?_⟩, ?_⟩
    · obtain ⟨value, hvalue, hin⟩ := (mem_csvRow (by decide) (by decide)).mp hmem
      exact hfeed value hvalue hin
    · rw [hmiddle, List.getLast?_append]
      exact fun hlast => absurd (Option.some.inj hlast) (by decide)
    · rw [hmiddle]
      rfl
  rw [csvLines_eq h]
  unfold fileText
  rw [Lines.split_join hsep (List.cons_ne_nil _ _) fun line hline => (hlines line hline).1]
  exact List.filter_eq_self.mpr fun line hline => (hlines line hline).2

theorem count_row (h : values ≠ []) : 1 ≤ Lines.count solid (csvRow values) := by
  obtain ⟨middle, hmiddle⟩ := csvRow_ends h
  refine Lines.count_pos (by decide) (by decide) ⟨'"', ?_, by decide⟩
  rw [hmiddle]
  exact List.mem_cons_self

/-- A line feed inside a row makes two lines of it, the first with the opening quote, the last with the closing one. -/
theorem count_row_feed (h : values ≠ []) (hfeed : ∃ value ∈ values, '\n' ∈ value.toList) :
    2 ≤ Lines.count solid (csvRow values) := by
  obtain ⟨middle, hmiddle⟩ := csvRow_ends h
  obtain ⟨before, after, hsplit⟩ := List.append_of_mem ((mem_csvRow (by decide) (by decide)).mpr hfeed)
  have hbefore : '"' ∈ before := by
    cases before with
    | nil =>
      rw [hsplit] at hmiddle
      exact absurd (List.cons_eq_cons.mp hmiddle).1 (by decide)
    | cons c before =>
      rw [hsplit] at hmiddle
      rw [(List.cons_eq_cons.mp hmiddle).1]
      exact List.mem_cons_self
  have hafter : '"' ∈ after := by
    have hlast := congrArg List.getLast? (hsplit.symm.trans hmiddle)
    rw [List.getLast?_append, List.getLast?_append, List.getLast?_cons] at hlast
    cases hend : after.getLast? with
    | none => simp [hend] at hlast
    | some c =>
      simp [hend] at hlast
      exact hlast ▸ List.mem_of_getLast? hend
  rw [hsplit, Lines.count_append (by decide)]
  have hfirst := Lines.count_pos (p := solid) (by decide) (by decide) ⟨'"', hbefore, by decide⟩
  have hsecond := Lines.count_pos (p := solid) (by decide) (by decide) ⟨'"', hafter, by decide⟩
  omega

theorem length_csvLines (hsep : Lines.Break sep) (h : Header header) : (csvLines (fileText sep header rows)).length =
    Lines.count solid header + (rows.map fun values => Lines.count solid (csvRow values)).sum := by
  have hcount : (csvLines (fileText sep header rows)).length = Lines.count solid (fileText sep header rows) := by
    rw [csvLines_eq h, ← List.countP_eq_length_filter]
    unfold Lines.count
    rw [List.count, List.countP_map]
    exact List.countP_congr fun line _ => by simp
  rw [hcount]
  unfold fileText
  rw [Lines.count_join hsep (by decide) (List.cons_ne_nil _ _), List.map_cons, List.sum_cons, List.map_map]
  rfl

/-- With a line feed in a value there are more lines than rows. -/
theorem csvLines_more (hsep : Lines.Break sep) (h : Header header) (hrows : ∀ values ∈ rows, values ≠ [])
    (hfeed : ∃ values ∈ rows, ∃ value ∈ values, '\n' ∈ value.toList) :
    rows.length + 2 ≤ (csvLines (fileText sep header rows)).length := by
  have hheader : 1 ≤ Lines.count solid header :=
    Lines.count_pos (by decide) (by decide) (List.any_eq_true.mp h.solid)
  have hsum : rows.length + 1 ≤ (rows.map fun values => Lines.count solid (csvRow values)).sum := by
    obtain ⟨values, hmem, hin⟩ := hfeed
    obtain ⟨before, after, rfl⟩ := List.append_of_mem hmem
    have hleast : ∀ part : List (List String), (∀ values ∈ part, values ≠ []) →
        part.length ≤ (part.map fun values => Lines.count solid (csvRow values)).sum := by
      intro part
      induction part with
      | nil => exact fun _ => Nat.le_refl 0
      | cons values part ih =>
        intro hpart
        obtain ⟨hvalues, hrest⟩ := List.forall_mem_cons.mp hpart
        rw [List.length_cons, List.map_cons, List.sum_cons, Nat.add_comm]
        exact Nat.add_le_add (count_row hvalues) (ih hrest)
    have hbefore := hleast before fun v hv => hrows v (List.mem_append_left _ hv)
    have hafter := hleast after fun v hv => hrows v (List.mem_append_right _ (List.mem_cons_of_mem _ hv))
    have htwo := count_row_feed (hrows values hmem) hin
    rw [List.map_append, List.sum_append, List.map_cons, List.sum_cons, List.length_append, List.length_cons]
    omega
  rw [length_csvLines hsep h]
  omega

end

/-! ## What the readers make of the lines -/

section
variable {isUrl : String → Bool} {candidate : List (List Char) → ImportLoginRow} {lines : List (List Char)}
  {rows : List ImportLoginRow} {r : Imported}

theorem add_count {row : ImportLoginRow} :
    (r.add isUrl row).rows.length + (r.add isUrl row).rejected = r.rows.length + r.rejected + 1 := by
  unfold Imported.add
  split
  · simp only [List.length_append, List.length_singleton]
    omega
  · rfl

theorem importLines_count : (importLines isUrl candidate lines).rows.length + (importLines isUrl candidate lines).rejected =
    lines.length := by
  induction lines using List.reverseRecOn with
  | nil => rfl
  | append_singleton lines line ih =>
    unfold importLines at ih ⊢
    rw [List.foldl_append, List.length_append, List.length_singleton, ← ih]
    exact add_count

theorem importLines_eq : importLines isUrl candidate lines = ⟨rows, 0⟩ ↔
    (∀ line ∈ lines, importLoginRowSchema isUrl (candidate (splitCsvLine line)) = true) ∧
      rows = lines.map fun line => candidate (splitCsvLine line) := by
  induction lines using List.reverseRecOn generalizing rows with
  | nil =>
    unfold importLines
    rw [List.foldl_nil, List.map_nil]
    exact ⟨fun h => ⟨fun _ hmem => absurd hmem List.not_mem_nil, (congrArg Imported.rows h).symm⟩, fun h => by rw [h.2]⟩
  | append_singleton lines line ih =>
    have hstep : importLines isUrl candidate (lines ++ [line]) =
        (importLines isUrl candidate lines).add isUrl (candidate (splitCsvLine line)) := by
      unfold importLines
      rw [List.foldl_append]
      rfl
    rw [hstep, List.map_append, List.map_singleton]
    unfold Imported.add
    constructor
    · intro h
      split at h
      · rename_i haccept
        have hrejected : (importLines isUrl candidate lines).rejected = 0 := congrArg Imported.rejected h
        obtain ⟨hall, hrows⟩ := ih.mp (show importLines isUrl candidate lines = ⟨_, 0⟩ by rw [← hrejected])
        refine ⟨fun other hother => ?_, ?_⟩
        · rcases List.mem_append.mp hother with hother | hother
          · exact hall other hother
          · rwa [List.mem_singleton.mp hother]
        · rw [← hrows]
          exact (congrArg Imported.rows h).symm
      · exact absurd (congrArg Imported.rejected h) (Nat.succ_ne_zero _)
    · rintro ⟨hall, rfl⟩
      have hbefore := ih.mpr ⟨fun other hother => hall other (List.mem_append_left _ hother), rfl⟩
      rw [hbefore, if_pos (hall line (List.mem_append_right _ (List.mem_singleton_self line)))]

end

structure ReadsRows (isUrl : String → Bool) (read : String → Imported) (header : List Char)
    (candidate : List (List Char) → ImportLoginRow) : Prop where
  rows : ∀ csv line lines, csvLines csv.toList = header :: line :: lines →
    read csv = importLines isUrl candidate (line :: lines)
  more : ∀ csv, 2 ≤ (csvLines csv.toList).length →
    (read csv).rows.length + (read csv).rejected + 1 = (csvLines csv.toList).length
  none : ∀ csv, csvLines csv.toList = [header] → read csv = {}

section
variable {ι : Type} {isUrl : String → Bool} {read : String → Imported} {header sep : List Char}
  {candidate : List (List Char) → ImportLoginRow} {values : ι → List String} {row : ι → ImportLoginRow} {items : List ι}

/-- A file is read back when no value has a line feed and the trimmed values are the same row. -/
theorem reads_back (hread : ReadsRows isUrl read header candidate) (hsep : Lines.Break sep) (hheader : Header header)
    (hvalues : ∀ item ∈ items, values item ≠ []) (haccept : ∀ item ∈ items, importLoginRowSchema isUrl (row item) = true) :
    read (String.ofList (fileText sep header (items.map values))) = ⟨items.map row, 0⟩ ↔
      ∀ item ∈ items, (∀ value ∈ values item, '\n' ∉ value.toList) ∧
        candidate ((values item).map fun value => trimJs value.toList) = row item := by
  have hnonempty : ∀ cells ∈ items.map values, cells ≠ [] := List.forall_mem_map.mpr hvalues
  -- a line feed in a value cuts its line in two, and there are more rows than items
  by_cases hfeed : ∃ cells ∈ items.map values, ∃ value ∈ cells, '\n' ∈ value.toList
  · have hlines := csvLines_more hsep hheader hnonempty hfeed
    constructor
    · intro h
      have hcount := hread.more (String.ofList (fileText sep header (items.map values)))
        (by rw [String.toList_ofList]; omega)
      rw [h, String.toList_ofList] at hcount
      simp only [List.length_map] at hcount hlines
      omega
    · intro h
      obtain ⟨cells, hcells, value, hvalue, hin⟩ := hfeed
      obtain ⟨item, hitem, rfl⟩ := List.mem_map.mp hcells
      exact absurd hin ((h item hitem).1 value hvalue)
  · have hclean : ∀ cells ∈ items.map values, cells ≠ [] ∧ ∀ value ∈ cells, '\n' ∉ value.toList :=
      fun cells hcells => ⟨hnonempty cells hcells, fun value hvalue hin => hfeed ⟨cells, hcells, value, hvalue, hin⟩⟩
    have hlines := csvLines_clean hsep hheader hclean
    rw [← String.toList_ofList (l := fileText sep header (items.map values))] at hlines
    have hsplit : ∀ item ∈ items, candidate (splitCsvLine (csvRow (values item))) =
        candidate ((values item).map fun value => trimJs value.toList) :=
      fun item hitem => by rw [splitCsvLine_row (hvalues item hitem)]
    cases items with
    | nil =>
      rw [hread.none _ hlines]
      exact ⟨fun _ _ h => absurd h List.not_mem_nil, fun _ => rfl⟩
    | cons first items =>
      rw [hread.rows _ _ _ hlines, ← List.map_cons, ← List.map_cons, List.map_map, importLines_eq, List.map_map]
      constructor
      · rintro ⟨-, hrows⟩ item hitem
        refine ⟨(hclean _ (List.mem_map_of_mem hitem)).2, ?_⟩
        have heq := (List.map_inj_left.mp hrows) item hitem
        rw [← hsplit item hitem]
        exact heq.symm
      · intro h
        refine ⟨List.forall_mem_map.mpr fun item hitem => ?_, List.map_inj_left.mpr fun item hitem => ?_⟩
        · change importLoginRowSchema isUrl (candidate (splitCsvLine (csvRow (values item)))) = true
          rw [hsplit item hitem, (h item hitem).2]
          exact haccept item hitem
        · change row item = candidate (splitCsvLine (csvRow (values item)))
          rw [hsplit item hitem, (h item hitem).2]

end

/-! ## Detection -/

/-- What the readers rely on: ASCII is lower-cased letter by letter. -/
def AsciiLower (toLowerCase : List Char → List Char) : Prop :=
  ∀ text, (∀ c ∈ text, c.toNat < 128) → toLowerCase text = text.map Char.toLower

section
variable {header sep text : List Char} {rows : List (List String)} {lines : List (List Char)}

theorem trimJs_self (hfirst : ∃ c, text.head? = some c ∧ isJsSpace c = false)
    (hlast : ∃ c, text.getLast? = some c ∧ isJsSpace c = false) : trimJs text = text := by
  have hkeep : ∀ {text : List Char}, (∃ c, text.head? = some c ∧ isJsSpace c = false) → text.dropWhile isJsSpace = text := by
    rintro text ⟨c, hc, hspace⟩
    cases text with
    | nil => exact nomatch hc
    | cons d text =>
      rw [List.head?_cons, Option.some.injEq] at hc
      rw [List.dropWhile_cons_of_neg (by rw [hc, hspace]; exact Bool.false_ne_true)]
  have hreverse : ∃ c, text.reverse.head? = some c ∧ isJsSpace c = false := by rwa [List.head?_reverse]
  unfold trimJs
  rw [hkeep hfirst, hkeep hreverse, List.reverse_reverse]

theorem join_last : ∀ {lines : List (List Char)}, lines ≠ [] →
    (∀ line ∈ lines, ∃ c, line.getLast? = some c ∧ isJsSpace c = false) →
    ∃ c, (List.intercalate sep lines).getLast? = some c ∧ isJsSpace c = false
  | [], hne, _ => absurd rfl hne
  | [line], _, h => by
    rw [List.intercalate_singleton]
    exact h line List.mem_cons_self
  | line :: other :: rest, _, h => by
    obtain ⟨c, hc, hspace⟩ := join_last (List.cons_ne_nil other rest) fun l hl => h l (List.mem_cons_of_mem _ hl)
    rw [List.intercalate_cons_cons, List.getLast?_append, hc]
    exact ⟨c, rfl, hspace⟩

/-- A header with marks at both ends that are kept, and a comma. -/
structure Detected (header : List Char) : Prop extends Header header where
  first : ∃ c, header.head? = some c ∧ isJsSpace c = false ∧ c ≠ '\x7b' ∧ c ≠ '['
  ends : ∃ c, header.getLast? = some c ∧ isJsSpace c = false
  comma : ',' ∈ header
  ascii : ∀ c ∈ header, c.toNat < 128

theorem trimJs_fileText (h : Detected header) (hrows : ∀ values ∈ rows, values ≠ []) :
    trimJs (fileText sep header rows) = fileText sep header rows := by
  refine trimJs_self ?_ (join_last (List.cons_ne_nil _ _) ?_)
  · obtain ⟨c, hc, hspace, _⟩ := h.first
    exact ⟨c, by rw [fileText_head h.toHeader, hc], hspace⟩
  · refine List.forall_mem_cons.mpr ⟨h.ends, List.forall_mem_map.mpr fun values hvalues => ?_⟩
    obtain ⟨middle, hmiddle⟩ := csvRow_ends (hrows values hvalues)
    rw [hmiddle, List.getLast?_append]
    exact ⟨'"', rfl, by decide⟩

theorem split_fileText (hsep : Lines.Break sep) (h : Header header) :
    (Lines.split (fileText sep header rows)).head? = some header := by
  unfold fileText
  cases rows with
  | nil =>
    rw [List.map_nil, List.intercalate_singleton, Lines.split_single h.feed]
    rfl
  | cons row rows =>
    rw [List.map_cons, List.intercalate_cons_cons, List.append_assoc, Lines.split_append hsep h.feed h.last]
    rfl

theorem comma_fileText (h : Detected header) : (fileText sep header rows).contains ',' = true := by
  rw [List.contains_iff_mem]
  unfold fileText
  cases rows with
  | nil =>
    rw [List.map_nil, List.intercalate_singleton]
    exact h.comma
  | cons row rows =>
    rw [List.map_cons, List.intercalate_cons_cons, List.append_assoc]
    exact List.mem_append_left _ h.comma

variable {toLowerCase : List Char → List Char} {parse : String → Option Json} {csvFormat : List Char → ImportFormat}
  {fileName : String} {read : String → Imported}

theorem detectFormat_fileText (hlower : AsciiLower toLowerCase) (hsep : Lines.Break sep) (h : Detected header)
    (hrows : ∀ values ∈ rows, values ≠ []) :
    detectFormat toLowerCase parse csvFormat (String.ofList (fileText sep header rows)) fileName = .onePassword ∨
    detectFormat toLowerCase parse csvFormat (String.ofList (fileText sep header rows)) fileName =
      csvFormat (header.map Char.toLower) := by
  obtain ⟨c, hc, -, hbrace, hbracket⟩ := h.first
  have hjson : ¬ ((fileText sep header rows).head? = some '\x7b' ∨ (fileText sep header rows).head? = some '[') := by
    rw [fileText_head h.toHeader, hc, Option.some.injEq, Option.some.injEq]
    exact not_or.mpr ⟨hbrace, hbracket⟩
  unfold detectFormat
  simp only [String.toList_ofList, trimJs_fileText h hrows, if_neg hjson, comma_fileText h, if_true,
    split_fileText hsep h.toHeader, Option.getD_some, hlower header h.ascii]
  split
  · exact .inl rfl
  · exact .inr rfl

theorem parseOnePassword_fileText (h : Detected header) (hrows : ∀ values ∈ rows, values ≠ []) :
    parseOnePassword read (String.ofList (fileText sep header rows)) = read (String.ofList (fileText sep header rows)) := by
  unfold parseOnePassword
  simp only [String.toList_ofList, trimJs_fileText h hrows, comma_fileText h, Bool.not_true, Bool.false_and,
    Bool.false_eq_true, if_false]

end

/-! ## The two clients -/

def webHeader : List Char := "name,url,username,password,note".toList

def desktopHeader : List Char := csvRow Desktop.csvHeaders

def isAscii (text : List Char) : Bool := text.all fun c => c.toNat < 128

theorem isAscii_iff {text : List Char} : isAscii text = true ↔ ∀ c ∈ text, c.toNat < 128 := by
  simp only [isAscii, List.all_eq_true, decide_eq_true_eq]

/-- What detection asks of a header that starts and ends with given characters. -/
def isDetected (header : List Char) (first last : Char) : Bool :=
  ('\n' ∉ header && header.any solid && header.head? = some first && !isJsSpace first && first ≠ '\x7b' &&
    first ≠ '[' && first ≠ '\uFEFF') &&
    (header.getLast? = some last && !isJsSpace last && last ≠ '\r' && ',' ∈ header && isAscii header)

theorem detected_of {header : List Char} {first last : Char} (h : isDetected header first last = true) :
    Detected header := by
  simp only [isDetected, Bool.and_eq_true, Bool.not_eq_true', decide_eq_true_eq] at h
  obtain ⟨⟨⟨⟨⟨⟨⟨hfeed, hsolid⟩, hfirst⟩, hspace⟩, hbrace⟩, hbracket⟩, hmark⟩, ⟨⟨⟨⟨hlast, hends⟩, hreturn⟩, hcomma⟩, hascii⟩⟩ := h
  refine ⟨⟨hfeed, ?_, ?_, hsolid⟩, ⟨first, hfirst, hspace, hbrace, hbracket⟩, ⟨last, hlast, hends⟩, hcomma,
    isAscii_iff.mp hascii⟩
  · rw [hlast]
    exact fun heq => hreturn (Option.some.inj heq)
  · rw [hfirst]
    exact fun heq => hmark (Option.some.inj heq)

section
variable {toLowerCase : List Char → List Char} {isUrl : String → Bool}

theorem normalizeHeader_ascii (hlower : AsciiLower toLowerCase) {header : List Char}
    (h : ∀ c ∈ trimJs header, c.toNat < 128) :
    normalizeHeader toLowerCase header = (trimJs header).map fun c => if c.toLower = ' ' then '_' else c.toLower := by
  unfold normalizeHeader
  rw [hlower _ h, List.map_map]
  rfl

def isNormal (header : List Char) : Bool :=
  isAscii (trimJs header) && ((trimJs header).map fun c => if c.toLower = ' ' then '_' else c.toLower) = header

theorem normalizeHeader_normal (hlower : AsciiLower toLowerCase) {header : List Char} (h : isNormal header = true) :
    normalizeHeader toLowerCase header = header := by
  unfold isNormal at h
  rw [Bool.and_eq_true, decide_eq_true_eq] at h
  rw [normalizeHeader_ascii hlower (isAscii_iff.mp h.1), h.2]

theorem normalizeHeaders (hlower : AsciiLower toLowerCase) {headers : List (List Char)}
    (h : headers.all isNormal = true) : headers.map (normalizeHeader toLowerCase) = headers := by
  refine (List.map_congr_left fun header hheader => ?_).trans (List.map_id _)
  exact normalizeHeader_normal hlower (List.all_eq_true.mp h header hheader)

def hasColumn (name : List Char) (index : Nat) : Bool :=
  isNormal name && !name.isEmpty && (splitCsvLine desktopHeader).idxOf? name = some index

theorem headers_read :
    ((isDetected webHeader 'n' 'e' && isDetected desktopHeader '"' '"') = true ∧
      splitCsvLine webHeader = ["name", "url", "username", "password", "note"].map String.toList ∧
      Web.csvFormat (webHeader.map Char.toLower) = .csv ∧
      Desktop.csvFormat (desktopHeader.map Char.toLower) = .onePassword) ∧
    ((splitCsvLine webHeader).all isNormal && (splitCsvLine desktopHeader).all isNormal) = true ∧
    (hasColumn "origin".toList 2 && hasColumn "username".toList 3 && hasColumn "password".toList 4 &&
      hasColumn "title".toList 1 && hasColumn "note".toList 5) = true := by
  decide +kernel

theorem webHeader_detected : Detected webHeader := detected_of (Bool.and_eq_true_iff.mp headers_read.1.1).1

theorem desktopHeader_detected : Detected desktopHeader := detected_of (Bool.and_eq_true_iff.mp headers_read.1.1).2

theorem webHeaders (hlower : AsciiLower toLowerCase) : (splitCsvLine webHeader).map (normalizeHeader toLowerCase) =
    ["name", "url", "username", "password", "note"].map String.toList :=
  (normalizeHeaders hlower (Bool.and_eq_true_iff.mp headers_read.2.1).1).trans headers_read.1.2.1

theorem desktopHeaders (hlower : AsciiLower toLowerCase) :
    (splitCsvLine desktopHeader).map (normalizeHeader toLowerCase) = splitCsvLine desktopHeader :=
  normalizeHeaders hlower (Bool.and_eq_true_iff.mp headers_read.2.1).2

/-- A column under one of its names, when the others are not there. -/
theorem pick_eq {row : List (List Char × List Char)} {names : List String} {value : List Char}
    (h : ∀ name ∈ names, Web.field row name = [] ∨ Web.field row name = value)
    (hin : ∃ name ∈ names, Web.field row name = value) : Web.pick row names = String.ofList value := by
  unfold Web.pick
  refine congrArg _ ?_
  cases hfind : (names.map (Web.field row)).find? (fun value => !value.isEmpty) with
  | none =>
    obtain ⟨name, hname, hvalue⟩ := hin
    have hempty := List.find?_eq_none.mp hfind _ (List.mem_map_of_mem hname)
    rw [hvalue] at hempty
    exact (List.isEmpty_iff.mp (by simpa using hempty)).symm
  | some found =>
    obtain ⟨name, hname, rfl⟩ := List.mem_map.mp (List.mem_of_find?_eq_some hfind)
    have hsome := List.find?_some hfind
    refine (h name hname).resolve_left fun hnil => ?_
    rw [hnil] at hsome
    exact Bool.false_ne_true hsome

theorem webCandidate {name url username password note : List Char} :
    Web.candidateOf (["name", "url", "username", "password", "note"].map String.toList)
      [name, url, username, password, note] =
      ⟨String.ofList url, String.ofList username, String.ofList password, orUndefined (String.ofList name),
        orUndefined (String.ofList note)⟩ := by
  let raw := [("name".toList, name), ("url".toList, url), ("username".toList, username), ("password".toList, password),
    ("note".toList, note)]
  have horigin : Web.pick raw ["url", "origin", "website", "signon_realm"] = String.ofList url :=
    pick_eq (by simp only [List.forall_mem_cons]; exact ⟨.inr rfl, .inl rfl, .inl rfl, .inl rfl, List.forall_mem_nil _⟩) ⟨"url", by decide, rfl⟩
  have husername : Web.pick raw ["username", "login", "email"] = String.ofList username :=
    pick_eq (by simp only [List.forall_mem_cons]; exact ⟨.inr rfl, .inl rfl, .inl rfl, List.forall_mem_nil _⟩) ⟨"username", by decide, rfl⟩
  have hpassword : Web.pick raw ["password"] = String.ofList password :=
    pick_eq (by simp only [List.forall_mem_cons]; exact ⟨.inr rfl, List.forall_mem_nil _⟩) ⟨"password", by decide, rfl⟩
  have htitle : Web.pick raw ["name", "title"] = String.ofList name :=
    pick_eq (by simp only [List.forall_mem_cons]; exact ⟨.inr rfl, .inl rfl, List.forall_mem_nil _⟩) ⟨"name", by decide, rfl⟩
  have hnotes : Web.pick raw ["notes", "note"] = String.ofList note :=
    pick_eq (by simp only [List.forall_mem_cons]; exact ⟨.inl rfl, .inr rfl, List.forall_mem_nil _⟩) ⟨"note", by decide, rfl⟩
  change ImportLoginRow.mk (Web.pick raw _) (Web.pick raw _) (Web.pick raw _) (orUndefined (Web.pick raw _))
    (orUndefined (Web.pick raw _)) = _
  rw [horigin, husername, hpassword, htitle, hnotes]

def desktopMapping : Desktop.ColumnMapping :=
  ⟨"origin".toList, "username".toList, "password".toList, "title".toList, "note".toList⟩

theorem desktopMapping_eq (hlower : AsciiLower toLowerCase) :
    Desktop.autoDetectMapping toLowerCase (splitCsvLine desktopHeader) = desktopMapping := by
  unfold Desktop.autoDetectMapping
  rw [desktopHeaders hlower]
  decide +kernel

theorem column_eq (hlower : AsciiLower toLowerCase) {values : List (List Char)} {name : List Char} (index : Nat)
    (value : List Char) (hname : hasColumn name index = true) (hvalue : values[index]? = some value) :
    Desktop.column toLowerCase (splitCsvLine desktopHeader) values name = String.ofList value := by
  simp only [hasColumn, Bool.and_eq_true, Bool.not_eq_true', decide_eq_true_eq] at hname
  obtain ⟨⟨hnormal, hne⟩, hindex⟩ := hname
  unfold Desktop.column
  rw [hne, normalizeHeader_normal hlower hnormal, hindex, Option.bind_some, hvalue]
  rfl

theorem desktopCandidate (hlower : AsciiLower toLowerCase) {type title origin username password note : List Char}
    {rest : List (List Char)} :
    Desktop.candidateOf toLowerCase (Desktop.autoDetectMapping toLowerCase (splitCsvLine desktopHeader))
      ((splitCsvLine desktopHeader).map (normalizeHeader toLowerCase))
      (type :: title :: origin :: username :: password :: note :: rest) =
      ⟨String.ofList origin, String.ofList username, String.ofList password, orUndefined (String.ofList title),
        orUndefined (String.ofList note)⟩ := by
  rw [desktopMapping_eq hlower, desktopHeaders hlower]
  unfold Desktop.candidateOf desktopMapping
  have hcolumns := headers_read.2.2
  simp only [Bool.and_eq_true] at hcolumns
  obtain ⟨⟨⟨⟨horigin, husername⟩, hpassword⟩, htitle⟩, hnote⟩ := hcolumns
  rw [column_eq hlower 2 origin horigin rfl, column_eq hlower 3 username husername rfl,
    column_eq hlower 4 password hpassword rfl, column_eq hlower 1 title htitle rfl, column_eq hlower 5 note hnote rfl]

theorem orUndefined_trim {value : String} : orUndefined (trim value) = orUndefined value ↔ trim value = value := by
  constructor
  · intro h
    unfold orUndefined at h
    split at h <;> split at h
    · rename_i htrim hvalue
      rw [String.isEmpty_iff.mp htrim, String.isEmpty_iff.mp hvalue]
    · cases h
    · cases h
    · exact Option.some.inj h
  · intro h
    rw [h]

theorem webReads (hlower : AsciiLower toLowerCase) : ReadsRows isUrl (Web.parsePasswordCsv toLowerCase isUrl) webHeader
    (Web.candidateOf (["name", "url", "username", "password", "note"].map String.toList)) where
  rows csv line lines h := by
    unfold Web.parsePasswordCsv
    rw [h]
    dsimp only
    rw [webHeaders hlower]
  more csv h := by
    unfold Web.parsePasswordCsv
    cases hlines : csvLines csv.toList with
    | nil => simp [hlines] at h
    | cons header lines =>
      cases lines with
      | nil => simp [hlines] at h
      | cons line lines => exact congrArg (· + 1) importLines_count
  none csv h := by
    unfold Web.parsePasswordCsv
    rw [h]

theorem desktopReads :
    ReadsRows isUrl (fun csv => Desktop.parsePasswordCsv toLowerCase isUrl csv none) desktopHeader
      (Desktop.candidateOf toLowerCase (Desktop.autoDetectMapping toLowerCase (splitCsvLine desktopHeader))
        ((splitCsvLine desktopHeader).map (normalizeHeader toLowerCase))) where
  rows csv line lines h := by
    unfold Desktop.parsePasswordCsv
    rw [h]
    rfl
  more csv h := by
    unfold Desktop.parsePasswordCsv
    cases hlines : csvLines csv.toList with
    | nil => simp [hlines] at h
    | cons header lines =>
      cases lines with
      | nil => simp [hlines] at h
      | cons line lines => exact congrArg (· + 1) importLines_count
  none csv h := by
    unfold Desktop.parsePasswordCsv
    rw [h]

end

namespace Web

def csvFields (item : CsvItem) : List String := [item.title, item.origin, item.username, item.password, item.notes]

/-- The row that an item should come back as. -/
def rowOf (item : CsvItem) : ImportLoginRow where
  origin := item.origin
  username := item.username
  password := item.password
  title := orUndefined item.title
  notes := orUndefined item.notes

end Web

namespace Desktop

def rowOf (item : VaultItem) : Option ImportLoginRow :=
  match item.body with
  | .login origin username password _ _ =>
    some ⟨origin, username, password, orUndefined item.title, orUndefined item.notes⟩
  | _ => none

end Desktop

section
variable {toLowerCase : List Char → List Char} {isUrl : String → Bool} {parse : String → Option Json} {fileName : String}

theorem webRow_trim {item : Web.CsvItem} :
    Web.candidateOf (["name", "url", "username", "password", "note"].map String.toList)
      ((Web.csvFields item).map fun value => trimJs value.toList) = Web.rowOf item ↔
      ∀ value ∈ Web.csvFields item, trim value = value := by
  have hfields : (Web.csvFields item).map (fun value => trimJs value.toList) =
      [trimJs item.title.toList, trimJs item.origin.toList, trimJs item.username.toList, trimJs item.password.toList,
        trimJs item.notes.toList] := rfl
  rw [hfields, webCandidate]
  change ImportLoginRow.mk (trim item.origin) (trim item.username) (trim item.password) (orUndefined (trim item.title))
    (orUndefined (trim item.notes)) = _ ↔ _
  unfold Web.rowOf Web.csvFields
  rw [ImportLoginRow.mk.injEq, orUndefined_trim, orUndefined_trim]
  simp only [List.forall_mem_cons, List.not_mem_nil, false_imp_iff, implies_true, and_true]
  exact ⟨fun ⟨horigin, husername, hpassword, htitle, hnotes⟩ => ⟨htitle, horigin, husername, hpassword, hnotes⟩,
    fun ⟨htitle, horigin, husername, hpassword, hnotes⟩ => ⟨horigin, husername, hpassword, htitle, hnotes⟩⟩

theorem web_round_trip (hlower : AsciiLower toLowerCase) {items : List Web.CsvItem}
    (haccept : ∀ item ∈ items, importLoginRowSchema isUrl (Web.rowOf item) = true) :
    Web.parsePasswordImport toLowerCase isUrl parse (Web.itemsToCsv items)
      (Web.detectImportFormat toLowerCase parse (Web.itemsToCsv items) fileName) = .ok ⟨items.map Web.rowOf, 0⟩ ↔
      ∀ item ∈ items, ∀ value ∈ Web.csvFields item, '\n' ∉ value.toList ∧ trim value = value := by
  have htext : Web.itemsToCsv items = String.ofList (fileText ['\n'] webHeader (items.map Web.csvFields)) := by
    unfold Web.itemsToCsv fileText csvRow
    rw [List.map_map]
    rfl
  have hfields : ∀ item ∈ items, Web.csvFields item ≠ [] := fun _ _ => List.cons_ne_nil _ _
  have hnonempty : ∀ values ∈ items.map Web.csvFields, values ≠ [] := List.forall_mem_map.mpr hfields
  have hparse : Web.parsePasswordImport toLowerCase isUrl parse (Web.itemsToCsv items)
      (Web.detectImportFormat toLowerCase parse (Web.itemsToCsv items) fileName) =
      .ok (Web.parsePasswordCsv toLowerCase isUrl (Web.itemsToCsv items)) := by
    have hdetect : Web.detectImportFormat toLowerCase parse (Web.itemsToCsv items) fileName = .onePassword ∨
        Web.detectImportFormat toLowerCase parse (Web.itemsToCsv items) fileName =
          Web.csvFormat (webHeader.map Char.toLower) := by
      rw [htext]
      exact detectFormat_fileText hlower (.inl rfl) webHeader_detected hnonempty
    unfold Web.parsePasswordImport
    rcases hdetect with hformat | hformat
    · rw [hformat, htext]
      dsimp only
      rw [parseOnePassword_fileText webHeader_detected hnonempty]
    · rw [hformat, headers_read.1.2.2.1]
  rw [hparse, Except.ok.injEq, htext, reads_back (webReads hlower) (.inl rfl) webHeader_detected.toHeader
    hfields haccept]
  refine forall₂_congr fun item _ => ?_
  rw [webRow_trim, ← forall₂_and]

theorem desktopRow_trim (hlower : AsciiLower toLowerCase) {item : VaultItem} {row : ImportLoginRow}
    (hrow : Desktop.rowOf item = some row) :
    Desktop.candidateOf toLowerCase (Desktop.autoDetectMapping toLowerCase (splitCsvLine desktopHeader))
      ((splitCsvLine desktopHeader).map (normalizeHeader toLowerCase))
      ((Desktop.csvValues item).map fun value => trimJs value.toList) = row ↔
      ∀ value ∈ (Desktop.csvValues item).take 6, trim value = value := by
  unfold Desktop.rowOf at hrow
  split at hrow
  · rename_i origin username password totp associations hbody
    obtain rfl := Option.some.inj hrow
    have hvalues : Desktop.csvValues item =
        ["login", item.title, origin, username, password, item.notes, "", "", "", "", "", item.folder] := by
      unfold Desktop.csvValues
      rw [hbody]
    have htype : trim "login" = "login" := by decide
    rw [hvalues]
    simp only [List.map_cons, List.take_succ_cons, List.take_zero]
    rw [desktopCandidate hlower]
    change ImportLoginRow.mk (trim origin) (trim username) (trim password) (orUndefined (trim item.title))
      (orUndefined (trim item.notes)) = _ ↔ _
    rw [ImportLoginRow.mk.injEq, orUndefined_trim, orUndefined_trim]
    simp only [List.forall_mem_cons, List.not_mem_nil, false_imp_iff, implies_true, and_true, htype, true_and]
    exact ⟨fun ⟨horigin, husername, hpassword, htitle, hnotes⟩ => ⟨htitle, horigin, husername, hpassword, hnotes⟩,
      fun ⟨htitle, horigin, husername, hpassword, hnotes⟩ => ⟨horigin, husername, hpassword, htitle, hnotes⟩⟩
  · exact nomatch hrow

theorem desktop_round_trip (hlower : AsciiLower toLowerCase) {items : List VaultItem}
    (haccept : ∀ item ∈ items, ∃ row, Desktop.rowOf item = some row ∧ importLoginRowSchema isUrl row = true) :
    Desktop.parsePasswordImport toLowerCase isUrl parse (Desktop.exportCsv items)
      (Desktop.detectImportFormat toLowerCase parse (Desktop.exportCsv items) fileName) =
        .ok ⟨items.filterMap Desktop.rowOf, 0⟩ ↔
      ∀ item ∈ items, (∀ value ∈ Desktop.csvValues item, '\n' ∉ value.toList) ∧
        ∀ value ∈ (Desktop.csvValues item).take 6, trim value = value := by
  let row := fun item => (Desktop.rowOf item).getD ⟨"", "", "", none, none⟩
  have hrow : ∀ item ∈ items, Desktop.rowOf item = some (row item) ∧ importLoginRowSchema isUrl (row item) = true := by
    intro item hitem
    obtain ⟨r, hr, haccepted⟩ := haccept item hitem
    change Desktop.rowOf item = some ((Desktop.rowOf item).getD _) ∧ importLoginRowSchema isUrl ((Desktop.rowOf item).getD _) = true
    rw [hr]
    exact ⟨rfl, haccepted⟩
  have hrows : items.filterMap Desktop.rowOf = items.map row := by
    rw [List.filterMap_congr (g := fun item => some (row item)) fun item hitem => (hrow item hitem).1]
    exact congrFun List.filterMap_eq_map' items
  have htext : Desktop.exportCsv items =
      String.ofList (fileText ['\r', '\n'] desktopHeader (items.map Desktop.csvValues)) := by
    unfold Desktop.exportCsv fileText csvRow
    rw [List.map_map]
    rfl
  have hvalues : ∀ item ∈ items, Desktop.csvValues item ≠ [] := by
    intro item _
    unfold Desktop.csvValues
    split <;> exact List.cons_ne_nil _ _
  have hnonempty : ∀ values ∈ items.map Desktop.csvValues, values ≠ [] := List.forall_mem_map.mpr hvalues
  have hparse : Desktop.parsePasswordImport toLowerCase isUrl parse (Desktop.exportCsv items)
      (Desktop.detectImportFormat toLowerCase parse (Desktop.exportCsv items) fileName) =
      .ok (Desktop.parsePasswordCsv toLowerCase isUrl (Desktop.exportCsv items) none) := by
    have hdetect : Desktop.detectImportFormat toLowerCase parse (Desktop.exportCsv items) fileName = .onePassword := by
      rw [htext]
      rcases detectFormat_fileText hlower (.inr rfl) desktopHeader_detected hnonempty with hformat | hformat
      · exact hformat
      · exact hformat.trans headers_read.1.2.2.2
    unfold Desktop.parsePasswordImport
    rw [hdetect, htext]
    dsimp only
    rw [parseOnePassword_fileText desktopHeader_detected hnonempty]
  rw [hparse, Except.ok.injEq, htext, hrows]
  rw [reads_back desktopReads (.inr rfl) desktopHeader_detected.toHeader hvalues fun item hitem => (hrow item hitem).2]
  exact forall₂_congr fun item hitem => and_congr_right fun _ => desktopRow_trim hlower (hrow item hitem).1

/-- Both clients read back what they wrote when no value has a line feed and the imported values are trimmed, and
only then. -/
theorem csv_round_trip (hlower : AsciiLower toLowerCase) :
    (∀ items : List Web.CsvItem, (∀ item ∈ items, importLoginRowSchema isUrl (Web.rowOf item) = true) →
      (Web.parsePasswordImport toLowerCase isUrl parse (Web.itemsToCsv items)
        (Web.detectImportFormat toLowerCase parse (Web.itemsToCsv items) fileName) = .ok ⟨items.map Web.rowOf, 0⟩ ↔
        ∀ item ∈ items, ∀ value ∈ Web.csvFields item, '\n' ∉ value.toList ∧ trim value = value)) ∧
    ∀ items : List VaultItem, (∀ item ∈ items, ∃ row, Desktop.rowOf item = some row ∧ importLoginRowSchema isUrl row = true) →
      (Desktop.parsePasswordImport toLowerCase isUrl parse (Desktop.exportCsv items)
        (Desktop.detectImportFormat toLowerCase parse (Desktop.exportCsv items) fileName) =
          .ok ⟨items.filterMap Desktop.rowOf, 0⟩ ↔
        ∀ item ∈ items, (∀ value ∈ Desktop.csvValues item, '\n' ∉ value.toList) ∧
          ∀ value ∈ (Desktop.csvValues item).take 6, trim value = value) :=
  ⟨fun _ haccept => web_round_trip hlower haccept, fun _ haccept => desktop_round_trip hlower haccept⟩

end

def lowerAscii (text : List Char) : List Char := text.map Char.toLower

theorem lowerAscii_ascii : AsciiLower lowerAscii := fun _ _ => rfl

/-- Enough of a URL test for plain `https` origins. -/
def isHttpsUrl (value : String) : Bool := "https://".toList.isPrefixOf value.toList

def quotedLogin : VaultItem where
  title := "a, \"b\""
  folder := "x, y"
  notes := ""
  customFields := []
  body := .login "https://x.com" "u" "p,\"" none none
  id := "1"
  createdAt := ""
  updatedAt := ""

theorem csv_round_trip_quotes :
    Web.parsePasswordImport lowerAscii isHttpsUrl (fun _ => none)
      (Web.itemsToCsv [⟨"a, \"b\"", "https://x.com", "u", "p,\"", ""⟩])
      (Web.detectImportFormat lowerAscii (fun _ => none) (Web.itemsToCsv [⟨"a, \"b\"", "https://x.com", "u", "p,\"", ""⟩])
        "export.csv") = .ok ⟨[⟨"https://x.com", "u", "p,\"", some "a, \"b\"", none⟩], 0⟩ ∧
    Desktop.parsePasswordImport lowerAscii isHttpsUrl (fun _ => none) (Desktop.exportCsv [quotedLogin])
      (Desktop.detectImportFormat lowerAscii (fun _ => none) (Desktop.exportCsv [quotedLogin]) "export.csv") =
      .ok ⟨[⟨"https://x.com", "u", "p,\"", some "a, \"b\"", none⟩], 0⟩ := by
  have haccept : ∀ item ∈ [quotedLogin], ∃ row, Desktop.rowOf item = some row ∧ importLoginRowSchema isHttpsUrl row = true :=
    List.forall_mem_singleton.mpr ⟨⟨"https://x.com", "u", "p,\"", some "a, \"b\"", none⟩, rfl, by decide +kernel⟩
  obtain ⟨hweb, hdesktop⟩ := csv_round_trip lowerAscii_ascii
  exact ⟨(hweb [⟨"a, \"b\"", "https://x.com", "u", "p,\"", ""⟩] (by decide +kernel)).mpr (by decide +kernel),
    (hdesktop [quotedLogin] haccept).mpr (by decide +kernel)⟩

def twoLineFolder : VaultItem where
  title := "a"
  folder := "x\ny"
  notes := ""
  customFields := []
  body := .login "https://x.com" "u" "p" none none
  id := "1"
  createdAt := ""
  updatedAt := ""

/-- A line feed in the notes cuts the row in two, a password loses its spaces, a folder of two lines spoils the file. -/
theorem csv_spoiled :
    Web.parsePasswordImport lowerAscii isHttpsUrl (fun _ => none)
      (Web.itemsToCsv [⟨"a", "https://x.com", "u", "p", "b\nc"⟩]) .csv =
      .ok ⟨[⟨"https://x.com", "u", "p", some "a", some "b"⟩], 1⟩ ∧
    Web.parsePasswordImport lowerAscii isHttpsUrl (fun _ => none)
      (Web.itemsToCsv [⟨"a", "https://x.com", "u", " p ", ""⟩]) .csv =
      .ok ⟨[⟨"https://x.com", "u", "p", some "a", none⟩], 0⟩ ∧
    Desktop.parsePasswordImport lowerAscii isHttpsUrl (fun _ => none) (Desktop.exportCsv [twoLineFolder])
      (Desktop.detectImportFormat lowerAscii (fun _ => none) (Desktop.exportCsv [twoLineFolder]) "export.csv") ≠
      .ok ⟨[⟨"https://x.com", "u", "p", some "a", none⟩], 0⟩ := by
  refine ⟨by decide +kernel, by decide +kernel, fun h => ?_⟩
  have haccept : ∀ item ∈ [twoLineFolder], ∃ row, Desktop.rowOf item = some row ∧ importLoginRowSchema isHttpsUrl row = true :=
    List.forall_mem_singleton.mpr ⟨⟨"https://x.com", "u", "p", some "a", none⟩, rfl, by decide +kernel⟩
  have hspoiled := (desktop_round_trip lowerAscii_ascii haccept).mp h twoLineFolder (List.mem_singleton_self _)
  exact hspoiled.1 "x\ny" (by decide) (by decide)

end ZeroVault.Import
