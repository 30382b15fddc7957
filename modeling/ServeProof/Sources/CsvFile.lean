import ServeProof.Sources.Csv
import ServeProof.Sources.CsvLine

/-!
# ServeProof.Sources.CsvFile

`normalizeCsv` on the text of a file: its lines, its header, the check of each row, the
errors with their line numbers.

`Layout` says how a file may show some lines.  What is read of a file is what has been
written, row by row (`csv_file_round_trip`): whatever the order of its columns, whatever
columns stand between them, whatever blanks and line ends.

`z.iso.datetime()` with the date it accepts, and the texts of the issues that `zod` itself
raises, are parameters.
-/

namespace ServeProof
namespace CsvFile

open CsvLine

/-! ## Lines -/

/-- `\n` -/
def lineFeed : UInt16 := 0x0a

/-- `\r` -/
def carriageReturn : UInt16 := 0x0d

/-- White space, as `trim` takes it off. -/
def isSpace (ch : UInt16) : Bool := IsSpace (Char.ofNat ch.toNat)

/-- `split(/\r?\n/)`, where `current` is the line so far. -/
def splitLines (current : Text) : Text → List Text
  | [] => [current]
  | ch :: rest =>
      if ch = lineFeed then current :: splitLines [] rest
      else if ch = carriageReturn ∧ rest.head? = some lineFeed then splitLines current rest
      else splitLines (current ++ [ch]) rest

def trim (line : Text) : Text := ((line.dropWhile isSpace).reverse.dropWhile isSpace).reverse

def csvLines (csvText : Text) : List Text :=
  ((splitLines [] csvText).map trim).filter fun line => decide (line ≠ [])

/-! ## Texts -/

/-- A text of the source; all of them are ASCII. -/
def ascii (text : String) : Text := text.toList.map fun c => UInt16.ofNat c.toNat

/-- The characters of a text.  Half of a surrogate pair becomes the replacement character,
as when the text is stored. -/
def characters : Text → List Char
  | [] => []
  | [unit] => [if unit.toNat.isValidChar then Char.ofNat unit.toNat else '\ufffd']
  | high :: low :: rest =>
      if 0xd800 ≤ high.toNat ∧ high.toNat < 0xdc00 ∧ 0xdc00 ≤ low.toNat ∧ low.toNat < 0xe000 then
        Char.ofNat (0x10000 + (high.toNat - 0xd800) * 0x400 + (low.toNat - 0xdc00)) ::
          characters rest
      else
        (if high.toNat.isValidChar then Char.ofNat high.toNat else '\ufffd') ::
          characters (low :: rest)

def decode (text : Text) : String := String.ofList (characters text)

/-! ## The schema of a row -/

/-- The keys of `csvEvidenceRowSchema`. -/
inductive CsvColumn where
  | provider | venueExternalId | workerExternalId | shiftExternalId | tipType | grossTip
  | clockIn | clockOut | role | payoutRoute | payrollStatus
  deriving DecidableEq, Repr

namespace CsvColumn

def name : CsvColumn → String
  | provider => "provider"
  | venueExternalId => "venue_external_id"
  | workerExternalId => "worker_external_id"
  | shiftExternalId => "shift_external_id"
  | tipType => "tip_type"
  | grossTip => "gross_tip"
  | clockIn => "clock_in"
  | clockOut => "clock_out"
  | role => "role"
  | payoutRoute => "payout_route"
  | payrollStatus => "payroll_status"

/-- The key, as it stands in a header. -/
def key (column : CsvColumn) : Text := ascii column.name

end CsvColumn

/-- `CSV_EVIDENCE_HEADERS` -/
def csvEvidenceHeaders : List CsvColumn :=
  [.provider, .venueExternalId, .workerExternalId, .shiftExternalId, .tipType, .grossTip,
    .clockIn, .clockOut, .role, .payoutRoute, .payrollStatus]

theorem mem_csvEvidenceHeaders (column : CsvColumn) : column ∈ csvEvidenceHeaders := by
  cases column <;> decide

/-- `TIP_TYPES` -/
def tipTypes : List (String × TipType) :=
  [("CASH_TIP", .cashTip), ("CARD_TIP", .cardTip), ("QR_TIP", .qrTip),
    ("AUTOMATIC_GRATUITY", .automaticGratuity), ("SERVICE_CHARGE", .serviceCharge)]

/-- `PAYOUT_RAILS` -/
def payoutRails : List (String × WorkerPayoutRail) :=
  [("CASH_RETAINED", .cashRetained), ("CASH_DRAWER", .cashDrawer), ("PAYROLL", .payroll),
    ("PAYOUT_PROVIDER", .payoutProvider), ("BANK_REFERENCE", .bankReference), ("USDC", .usdc)]

/-- The member of an enumeration that a text names. -/
def memberOf {α : Type} (members : List (String × α)) (value : Text) : Option α :=
  (members.find? fun member => decide (ascii member.1 = value)).map Prod.snd

section Normalize

variable (datetime : Text → Option Date) (zodIssue : CsvColumn → Option Text → Text)

/-- The check of a column. -/
def Accepts : CsvColumn → Text → Prop
  | .provider, value | .venueExternalId, value | .workerExternalId, value
  | .shiftExternalId, value | .role, value | .payrollStatus, value => value ≠ []
  | .tipType, value => (memberOf tipTypes value).isSome
  | .grossTip, value => grossTipAccepted (decode value)
  | .clockIn, value | .clockOut, value => (datetime value).isSome
  | .payoutRoute, value => (memberOf payoutRails value).isSome

instance (column : CsvColumn) (value : Text) : Decidable (Accepts datetime column value) :=
  match column with
  | .provider | .venueExternalId | .workerExternalId | .shiftExternalId | .role
  | .payrollStatus => inferInstanceAs (Decidable (value ≠ []))
  | .tipType => inferInstanceAs (Decidable ((memberOf tipTypes value).isSome = true))
  | .grossTip => inferInstanceAs (Decidable (grossTipAccepted (decode value)))
  | .clockIn | .clockOut => inferInstanceAs (Decidable ((datetime value).isSome = true))
  | .payoutRoute => inferInstanceAs (Decidable ((memberOf payoutRails value).isSome = true))

/-- The issue of a column that is not there, or does not pass its check. -/
def issue : CsvColumn → Option Text → Text
  | .grossTip, some _ => ascii "gross_tip must be a non-negative USD amount"
  | column, value => zodIssue column value

/-- A row that has passed the schema. -/
structure CsvRow where
  value : CsvColumn → Text
  accepted : ∀ column, Accepts datetime column (value column)

/-- `csvEvidenceRowSchema.safeParse`: the row, or its issues, one after the other. -/
def safeParse (value : CsvColumn → Option Text) : Except Text (CsvRow datetime) :=
  if h : ∀ column ∈ csvEvidenceHeaders, ∃ text ∈ value column, Accepts datetime column text then
    .ok
      { value := fun column => (value column).getD []
        accepted := fun column => by
          obtain ⟨text, htext, haccepts⟩ := h column (mem_csvEvidenceHeaders column)
          rw [Option.mem_def.mp htext]
          exact haccepts }
  else
    .error ((ascii "; ").intercalate
      ((csvEvidenceHeaders.filter fun column =>
          decide (¬ ∃ text ∈ value column, Accepts datetime column text)).map fun column =>
        column.key ++ ascii ": " ++ issue zodIssue column (value column)))

variable {datetime}

def CsvRow.evidence (row : CsvRow datetime) : CsvEvidenceRow where
  provider := decode (row.value .provider)
  workerExternalId := decode (row.value .workerExternalId)
  shiftExternalId := decode (row.value .shiftExternalId)
  tipType := (memberOf tipTypes (row.value .tipType)).get (row.accepted .tipType)
  grossTip := decode (row.value .grossTip)
  clockIn := (datetime (row.value .clockIn)).get (row.accepted .clockIn)
  clockOut := (datetime (row.value .clockOut)).get (row.accepted .clockOut)
  role := decode (row.value .role)
  payoutRoute := (memberOf payoutRails (row.value .payoutRoute)).get (row.accepted .payoutRoute)
  payrollStatus := decode (row.value .payrollStatus)
  grossTip_valid := grossTip_parses (row.accepted .grossTip)

variable (datetime)

/-! ## normalizeCsv -/

/-- A property of `Object.fromEntries`: of a header that stands twice the last value counts,
and a value that is not there is empty. -/
def rowObject (headers values : List Text) (key : Text) : Option Text :=
  (headers.zipIdx.reverse.find? fun header => decide (header.1 = key)).map fun header =>
    values.getD header.2 []

structure CsvError where
  line : Nat
  message : Text
  deriving DecidableEq, Repr

structure CsvFileResult extends CsvNormalizationResult where
  errors : List CsvError

variable (businessDate : Date → String) (hash : CsvRow datetime → Nat)

/-- The rest of the lines, from `lineNo` on. -/
def normalizeLines (headers : List Text) (lineNo : Nat) : List Text → CsvFileResult
  | [] => ⟨⟨[], []⟩, []⟩
  | line :: lines =>
      let rest := normalizeLines headers (lineNo + 1) lines
      match safeParse datetime zodIssue fun column =>
          rowObject headers (splitCsvLine line) column.key with
      | .error message => { rest with errors := ⟨lineNo + 1, message⟩ :: rest.errors }
      | .ok row =>
          { rest with
            shifts := csvShift businessDate (fun _ => hash row) row.evidence :: rest.shifts
            tips := (csvTip businessDate (fun _ => hash row) row.evidence).toList ++ rest.tips }

def normalizeCsv (csvText : Text) : CsvFileResult :=
  match csvLines csvText with
  | header :: line :: lines =>
      normalizeLines datetime zodIssue businessDate hash (splitCsvLine header) 1 (line :: lines)
  | _ => ⟨⟨[], []⟩, [⟨0, ascii "CSV has no data rows"⟩]⟩

end Normalize

/-! ## How a file shows its lines -/

/-- Blanks within a line. -/
def Blank (text : Text) : Prop := ∀ ch ∈ text, isSpace ch = true ∧ ch ≠ lineFeed

instance (text : Text) : Decidable (Blank text) :=
  List.decidableBAll (fun ch => isSpace ch = true ∧ ch ≠ lineFeed) text

def lineEnds : List Text := [[lineFeed], [carriageReturn, lineFeed]]

/-- The text shows the lines: each between blanks, with blank lines between them, and with
either line end. -/
inductive Layout : List Text → Text → Prop where
  | done (blank : Text) (hblank : Blank blank) : Layout [] blank
  | last (before line after : Text) (hbefore : Blank before) (hafter : Blank after) :
      Layout [line] (before ++ line ++ after)
  | skip (blank lineEnd text : Text) (lines : List Text) (hblank : Blank blank)
      (hend : lineEnd ∈ lineEnds) (hrest : Layout lines text) :
      Layout lines (blank ++ lineEnd ++ text)
  | line (before line after lineEnd text : Text) (lines : List Text) (hbefore : Blank before)
      (hafter : Blank after) (hend : lineEnd ∈ lineEnds) (hrest : Layout lines text) :
      Layout (line :: lines) (before ++ line ++ after ++ lineEnd ++ text)

/-- A line that is read as it stands. -/
structure Plain (line : Text) : Prop where
  nonempty : line ≠ []
  trim : trim line = line
  noFeed : lineFeed ∉ line

section Lines

variable {line before after text rest : Text}

theorem trim_append_space {ch : UInt16} (hch : isSpace ch = true) (line : Text) :
    trim (line ++ [ch]) = trim line := by
  rw [trim, trim, List.dropWhile_append]
  split
  · next hnil =>
    rw [List.isEmpty_iff.mp hnil]
    simp [hch]
  · simp [hch]

theorem trim_append_blank (hafter : ∀ ch ∈ after, isSpace ch = true) (line : Text) :
    trim (line ++ after) = trim line := by
  induction after using List.reverseRecOn with
  | nil => rw [List.append_nil]
  | append_singleton after ch ih =>
      rw [← List.append_assoc, trim_append_space (hafter ch (by simp))]
      exact ih fun ch hch => hafter ch (List.mem_append_left _ hch)

theorem trim_blank_append (hbefore : ∀ ch ∈ before, isSpace ch = true) (line : Text) :
    trim (before ++ line) = trim line := by
  rw [trim, trim, List.dropWhile_append_of_pos hbefore]

/-- Splitting off a line: what is read differs from what stands there by a blank at most. -/
theorem splitLines_line (hline : lineFeed ∉ line) (current : Text) :
    ∃ read, splitLines current (line ++ lineFeed :: rest) = read :: splitLines [] rest ∧
      trim read = trim (current ++ line) := by
  induction line generalizing current with
  | nil => exact ⟨current, by simp [splitLines], by simp⟩
  | cons ch line ih =>
      rw [List.mem_cons, not_or] at hline
      obtain ⟨hch, hline⟩ := hline
      rw [List.cons_append, splitLines, if_neg (Ne.symm hch)]
      split
      · next hreturn =>
        -- the return belongs to the line end
        obtain ⟨rfl, hnext⟩ := hreturn
        have hnil : line = [] := by
          cases line with
          | nil => rfl
          | cons ch' line =>
              cases hnext
              exact absurd List.mem_cons_self hline
        subst hnil
        obtain ⟨read, hread, htrim⟩ := ih List.not_mem_nil current
        refine ⟨read, hread, htrim.trans ?_⟩
        rw [List.append_nil]
        exact (trim_append_space (by decide) current).symm
      · obtain ⟨read, hread, htrim⟩ := ih hline (current ++ [ch])
        refine ⟨read, hread, htrim.trans ?_⟩
        rw [List.append_assoc, List.singleton_append]

theorem splitLines_last (hline : lineFeed ∉ line) (current : Text) :
    splitLines current line = [current ++ line] := by
  induction line generalizing current with
  | nil => simp [splitLines]
  | cons ch line ih =>
      rw [List.mem_cons, not_or] at hline
      obtain ⟨hch, hline⟩ := hline
      have hnext : ¬ (ch = carriageReturn ∧ line.head? = some lineFeed) := fun h =>
        hline (List.mem_of_mem_head? h.2)
      rw [splitLines, if_neg (Ne.symm hch), if_neg hnext, ih hline, List.append_assoc,
        List.singleton_append]

theorem Blank.noFeed {blank : Text} (h : Blank blank) : lineFeed ∉ blank :=
  fun hmem => (h lineFeed hmem).2 rfl

/-- A line with its line end. -/
theorem csvLines_line (hline : lineFeed ∉ line) {lineEnd : Text} (hend : lineEnd ∈ lineEnds) :
    csvLines (line ++ lineEnd ++ rest) =
      ([trim line].filter fun line => decide (line ≠ [])) ++ csvLines rest := by
  obtain ⟨read, hread, htrim⟩ : ∃ read,
      splitLines [] (line ++ lineEnd ++ rest) = read :: splitLines [] rest ∧
        trim read = trim line := by
    simp only [lineEnds, List.mem_cons, List.not_mem_nil, or_false] at hend
    obtain rfl | rfl := hend
    · obtain ⟨read, hread, htrim⟩ := @splitLines_line _ rest hline []
      exact ⟨read, by simpa using hread, htrim⟩
    · have hreturn : lineFeed ∉ line ++ [carriageReturn] := by
        simpa [hline] using (by decide : lineFeed ≠ carriageReturn)
      obtain ⟨read, hread, htrim⟩ := @splitLines_line _ rest hreturn []
      refine ⟨read, by simpa using hread, htrim.trans ?_⟩
      exact trim_append_space (by decide) line
  rw [csvLines, hread, List.map_cons, htrim, csvLines, ← List.singleton_append,
    List.filter_append]

theorem csvLines_last (hline : lineFeed ∉ line) :
    csvLines line = [trim line].filter fun line => decide (line ≠ []) := by
  rw [csvLines, splitLines_last hline]
  rfl

theorem trim_eq_nil {blank : Text} (h : Blank blank) : trim blank = [] := by
  have hnil := trim_append_blank (fun ch hch => (h ch hch).1) []
  rwa [List.nil_append] at hnil

/-- A line between blanks. -/
theorem Plain.trim_eq (h : Plain line) (hbefore : Blank before) (hafter : Blank after) :
    CsvFile.trim (before ++ line ++ after) = line := by
  rw [trim_append_blank fun ch hch => (hafter ch hch).1,
    trim_blank_append fun ch hch => (hbefore ch hch).1, h.trim]

theorem Plain.noFeed_between (h : Plain line) (hbefore : Blank before) (hafter : Blank after) :
    lineFeed ∉ before ++ line ++ after := by
  simp [hbefore.noFeed, h.noFeed, hafter.noFeed]

/-- The lines of a file are those that it shows. -/
theorem csvLines_layout {lines : List Text} (h : Layout lines text)
    (hplain : ∀ line ∈ lines, Plain line) : csvLines text = lines := by
  induction h with
  | done blank hblank =>
      rw [csvLines_last hblank.noFeed, trim_eq_nil hblank]
      rfl
  | last before line after hbefore hafter =>
      have hline := hplain line List.mem_cons_self
      rw [csvLines_last (hline.noFeed_between hbefore hafter), hline.trim_eq hbefore hafter]
      simp [hline.nonempty]
  | skip blank lineEnd text lines hblank hend hrest ih =>
      rw [csvLines_line hblank.noFeed hend, trim_eq_nil hblank, ih hplain]
      rfl
  | line before line after lineEnd text lines hbefore hafter hend hrest ih =>
      have hline := hplain line List.mem_cons_self
      rw [csvLines_line (hline.noFeed_between hbefore hafter) hend,
        hline.trim_eq hbefore hafter,
        ih fun other hother => hplain other (List.mem_cons_of_mem line hother)]
      simp [hline.nonempty]

end Lines

/-! ## What is written is read back -/

section Written

variable {header : List Text} {row : Text → Text}

theorem joinCsv_cons (value next : Text) (fields : List Text) :
    joinCsv (value :: next :: fields) = escape value ++ comma :: joinCsv (next :: fields) := by
  simp [joinCsv, List.intercalate]

/-- A written row starts and ends with a quote. -/
theorem joinCsv_quoted (value : Text) (fields : List Text) :
    ∃ middle, joinCsv (value :: fields) = quote :: (middle ++ [quote]) := by
  induction fields generalizing value with
  | nil => exact ⟨doubleQuotes value, by simp [joinCsv, escape]⟩
  | cons next fields ih =>
      obtain ⟨middle, hmiddle⟩ := ih next
      refine ⟨doubleQuotes value ++ quote :: comma :: quote :: middle, ?_⟩
      rw [joinCsv_cons, hmiddle]
      simp [escape]

/-- What stands in a written row. -/
theorem mem_joinCsv {ch : UInt16} {fields : List Text} (h : ch ∈ joinCsv fields) :
    ch = quote ∨ ch = comma ∨ ∃ field ∈ fields, ch ∈ field := by
  have hescape (value : Text) (hmem : ch ∈ escape value) : ch = quote ∨ ch ∈ value := by
    simp only [escape, doubleQuotes, List.mem_append, List.mem_singleton, List.mem_flatMap] at hmem
    obtain (hquote | ⟨ch', hch', hmem⟩) | hquote := hmem
    · exact .inl hquote
    · split at hmem
      · exact .inl (by simpa using hmem)
      · exact .inr (List.mem_singleton.mp hmem ▸ hch')
    · exact .inl hquote
  induction fields with
  | nil => cases h
  | cons value fields ih =>
      cases fields with
      | nil =>
          have hmem : ch ∈ escape value := by simpa [joinCsv] using h
          exact (hescape value hmem).imp_right fun hvalue => .inr ⟨value, by simp, hvalue⟩
      | cons next fields =>
          rw [joinCsv_cons, List.mem_append, List.mem_cons] at h
          obtain hmem | rfl | hrest := h
          · exact (hescape value hmem).imp_right fun hvalue => .inr ⟨value, by simp, hvalue⟩
          · exact .inr (.inl rfl)
          · refine (ih hrest).imp_right (Or.imp_right ?_)
            rintro ⟨field, hfield, hch⟩
            exact ⟨field, List.mem_cons_of_mem value hfield, hch⟩

/-- A written row is a line of its own. -/
theorem plain_joinCsv {fields : List Text} (hne : fields ≠ [])
    (hfeed : ∀ field ∈ fields, lineFeed ∉ field) : Plain (joinCsv fields) := by
  obtain ⟨value, fields, rfl⟩ := List.exists_cons_of_ne_nil hne
  obtain ⟨middle, hmiddle⟩ := joinCsv_quoted value fields
  have hquote : isSpace quote = false := by decide
  refine ⟨?_, ?_, fun hmem => ?_⟩
  · rw [hmiddle]
    exact List.cons_ne_nil _ _
  · rw [hmiddle, trim]
    simp [hquote]
  · obtain hmem | hmem | ⟨field, hfield, hmem⟩ := mem_joinCsv hmem
    · revert hmem
      decide
    · revert hmem
      decide
    · exact hfeed field hfield hmem

theorem splitCsvLine_joinCsv {fields : List Text} (hne : fields ≠ []) :
    splitCsvLine (joinCsv fields) = fields := by
  cases fields with
  | nil => exact absurd rfl hne
  | cons value fields => exact (scan_joinCsv value fields).trans (List.nil_append _)

/-- The value under a header. -/
theorem rowObject_written {key : Text} (hkey : key ∈ header) :
    rowObject header (header.map row) key = some (row key) := by
  rw [rowObject]
  cases hfind : header.zipIdx.reverse.find? fun h => decide (h.1 = key) with
  | none =>
      obtain ⟨i, hi, rfl⟩ := List.mem_iff_getElem.mp hkey
      have hmem : (header[i], i) ∈ header.zipIdx.reverse :=
        List.mem_reverse.mpr (List.mem_zipIdx_iff_getElem?.mpr (List.getElem?_eq_getElem hi))
      have hdiffers := List.find?_eq_none.mp hfind _ hmem
      exact absurd (decide_eq_true rfl) hdiffers
  | some found =>
      obtain ⟨name, i⟩ := found
      have hname : name = key := by simpa using List.find?_some hfind
      have hget : header[i]? = some name := List.mem_zipIdx_iff_getElem?.mp
        (List.mem_reverse.mp (List.mem_of_find?_eq_some hfind))
      rw [Option.map_some, List.getD_eq_getElem?_getD, List.getElem?_map, hget, hname]
      rfl

variable (datetime : Text → Option Date) (zodIssue : CsvColumn → Option Text → Text)
  (businessDate : Date → String) (hash : CsvRow datetime → Nat)

/-- The check of a written row. -/
def checked (row : Text → Text) : Except Text (CsvRow datetime) :=
  safeParse datetime zodIssue fun column => some (row column.key)

/-- The row, if it passes. -/
def accepted (row : Text → Text) : Option (CsvRow datetime) :=
  (checked datetime zodIssue row).toOption

/-- The error of the row on this line, if it does not pass. -/
def errorOf (row : Text → Text) (line : Nat) : Option CsvError :=
  match checked datetime zodIssue row with
  | .ok _ => none
  | .error message => some ⟨line, message⟩

/-- What a file of these rows comes to, the first of them on the line `lineNo`. -/
structure Reads (rows : List (Text → Text)) (lineNo : Nat) (result : CsvFileResult) : Prop where
  shifts : result.shifts = (rows.filterMap (accepted datetime zodIssue)).map fun row =>
    csvShift businessDate (fun _ => hash row) row.evidence
  tips : result.tips = (rows.filterMap (accepted datetime zodIssue)).filterMap fun row =>
    csvTip businessDate (fun _ => hash row) row.evidence
  errors : result.errors = (rows.zipIdx lineNo).filterMap fun row =>
    errorOf datetime zodIssue row.1 row.2

variable {datetime zodIssue businessDate hash}

theorem reads_normalizeLines (hne : header ≠ []) (hcolumns : ∀ column, CsvColumn.key column ∈ header)
    (rows : List (Text → Text)) (lineNo : Nat) :
    Reads datetime zodIssue businessDate hash rows (lineNo + 1)
      (normalizeLines datetime zodIssue businessDate hash header lineNo
        (rows.map fun row => joinCsv (header.map row))) := by
  induction rows generalizing lineNo with
  | nil => exact ⟨rfl, rfl, rfl⟩
  | cons row rows ih =>
      have hrest := ih (lineNo + 1)
      have hrow : (safeParse datetime zodIssue fun column =>
          rowObject header (splitCsvLine (joinCsv (header.map row))) column.key) =
            checked datetime zodIssue row := by
        rw [splitCsvLine_joinCsv (by simpa using hne)]
        simp only [rowObject_written (hcolumns _)]
        rfl
      rw [List.map_cons, normalizeLines, hrow]
      cases hparsed : checked datetime zodIssue row with
      | error message =>
          have hnone : accepted datetime zodIssue row = none := by rw [accepted, hparsed]; rfl
          have herror : errorOf datetime zodIssue row (lineNo + 1) =
              some ⟨lineNo + 1, message⟩ := by rw [errorOf, hparsed]
          exact {
            shifts := by rw [List.filterMap_cons_none hnone]; exact hrest.shifts
            tips := by rw [List.filterMap_cons_none hnone]; exact hrest.tips
            errors := by
              rw [List.zipIdx_cons, List.filterMap_cons, herror, ← hrest.errors] }
      | ok parsed =>
          have hsome : accepted datetime zodIssue row = some parsed := by
            rw [accepted, hparsed]
            rfl
          have hnoError : errorOf datetime zodIssue row (lineNo + 1) = none := by
            rw [errorOf, hparsed]
          exact {
            shifts := by
              rw [List.filterMap_cons_some hsome, List.map_cons, ← hrest.shifts]
            tips := by
              change (csvTip businessDate (fun _ => hash parsed) parsed.evidence).toList ++ _ = _
              rw [hrest.tips, List.filterMap_cons_some hsome, List.filterMap_cons]
              split
              · next hnoTip => rw [hnoTip, Option.toList_none, List.nil_append]
              · next tip htip => rw [htip, Option.toList_some, List.singleton_append]
            errors := by
              rw [List.zipIdx_cons, List.filterMap_cons, hnoError]
              exact hrest.errors }

/-- **Round trip**: a file that shows a header with all columns, in any order and with any
others between them, and then some rows under it, is read as these rows.  Each passes the
schema and gives its shift and its tip, or is an error of its own line. -/
theorem csv_file_round_trip {rows : List (Text → Text)} {csvText : Text}
    (hcolumns : ∀ column, CsvColumn.key column ∈ header) (hrows : rows ≠ [])
    (hheader : ∀ name ∈ header, lineFeed ∉ name)
    (hvalues : ∀ row ∈ rows, ∀ name ∈ header, lineFeed ∉ row name)
    (hlayout : Layout (joinCsv header :: rows.map fun row => joinCsv (header.map row)) csvText) :
    Reads datetime zodIssue businessDate hash rows 2
      (normalizeCsv datetime zodIssue businessDate hash csvText) := by
  have hne : header ≠ [] := List.ne_nil_of_mem (hcolumns .provider)
  have hlines := csvLines_layout hlayout fun line hline => by
    rcases List.mem_cons.mp hline with rfl | hline
    · exact plain_joinCsv hne hheader
    · obtain ⟨row, hrow, rfl⟩ := List.mem_map.mp hline
      refine plain_joinCsv (by simpa using hne) fun field hfield => ?_
      obtain ⟨name, hname, rfl⟩ := List.mem_map.mp hfield
      exact hvalues row hrow name hname
  obtain ⟨row, rows, rfl⟩ := List.exists_cons_of_ne_nil hrows
  rw [normalizeCsv, hlines, List.map_cons]
  dsimp only
  rw [splitCsvLine_joinCsv hne]
  exact reads_normalizeLines hne hcolumns (row :: rows) 1

end Written

section Concrete

/-- A header with the columns from the last to the first, and one more. -/
def wideHeader : List Text := (csvEvidenceHeaders.reverse.map CsvColumn.key) ++ [ascii "note"]

/-- A row of a shift, with this amount. -/
def shiftRow (amount : String) (key : Text) : Text :=
  if key = CsvColumn.grossTip.key then ascii amount
  else if key = CsvColumn.tipType.key then ascii "CARD_TIP"
  else if key = CsvColumn.payoutRoute.key then ascii "PAYROLL"
  else if key = CsvColumn.clockIn.key then ascii "2026-07-01T10:00:00Z"
  else if key = CsvColumn.clockOut.key then ascii "2026-07-01T18:00:00Z"
  else ascii "a, \"b\""

/-- A file of two rows, the first of them between blanks and before a blank line. -/
def twoRows : Text :=
  [] ++ joinCsv wideHeader ++ [] ++ [lineFeed] ++
    (ascii " " ++ joinCsv (wideHeader.map (shiftRow "12.50")) ++ ascii " " ++
      [carriageReturn, lineFeed] ++
      ([] ++ [lineFeed] ++ ([] ++ joinCsv (wideHeader.map (shiftRow "-1")) ++ [])))

/-- The two instants of the rows. -/
def twoInstants (text : Text) : Option Date :=
  if text = ascii "2026-07-01T10:00:00Z" then some 0
  else if text = ascii "2026-07-01T18:00:00Z" then some 28800000
  else none

theorem csv_file_round_trip_twoRows :
    Reads twoInstants (fun _ _ => []) (fun _ => "2026-07-01") (fun _ => 0)
      [shiftRow "12.50", shiftRow "-1"] 2
      (normalizeCsv twoInstants (fun _ _ => []) (fun _ => "2026-07-01") (fun _ => 0) twoRows) := by
  have hblank : Blank (ascii " ") := by decide
  have hnone : Blank [] := by decide
  have hcolumns (column : CsvColumn) : column.key ∈ wideHeader := by
    cases column <;> decide
  have hlayout : Layout (joinCsv wideHeader :: [shiftRow "12.50", shiftRow "-1"].map fun row =>
      joinCsv (wideHeader.map row)) twoRows :=
    .line _ _ _ _ _ _ hnone hnone (by decide)
      (.line _ _ _ _ _ _ hblank hblank (by decide)
        (.skip _ _ _ _ hnone (by decide) (.last _ _ _ hnone hnone)))
  exact csv_file_round_trip hcolumns (by simp) (by decide) (by decide +kernel) hlayout

end Concrete

end CsvFile
end ServeProof
