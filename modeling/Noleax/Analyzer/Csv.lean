import Noleax.Analyzer.Utf8
import Noleax.Lib.Csv
import Noleax.Trace.FileFormat

/-!
# CSV output (`analyzer/csv.cpp`)

`CsvEmitter` writes rows of fields; `stack_frames_value` joins the frames of a stack into one
field, with an escaping of its own below the quotes of the row. Each of the two has a reader
that recovers what was written.
-/

namespace Noleax.Analyzer

open Lib

/-! ## Rows -/

/-- A `CsvFormatError`. -/
structure CsvFormatError where
  message : String
deriving DecidableEq, Repr

/-- `write_field` -/
def writeField (value : Bytes) : Bytes :=
  if value.any fun byte => decide (Csv.Special byte) then
    [Csv.quote] ++ Csv.doubled value ++ [Csv.quote]
  else value

/-- A loop that puts a separator in front of every part but the first. -/
def separated (separator : UInt8) : Bool → List Bytes → Bytes
  | _, [] => []
  | first, part :: parts =>
      (if first then [] else [separator]) ++ part ++ separated separator false parts

/-- The loop over the fields of a row. -/
def writeFields (fields : List Bytes) : Bytes :=
  separated Csv.comma true (fields.map writeField)

/-- `row` -/
def writeRow (fields : List Bytes) : Except CsvFormatError Bytes := do
  fields.forM fun field =>
    failIf (isValidUtf8 field ≠ some true) ⟨"CSV field is not valid UTF-8"⟩
  return writeFields fields ++ [Csv.carriageReturn, Csv.lineFeed]

/-- The rows of a table, one behind the other. -/
def writeTable (rows : List (List Bytes)) : Except CsvFormatError Bytes := do
  return (← rows.mapM writeRow).flatten

/-- The field is a string of scalar values. -/
def Utf8 (value : Bytes) : Prop :=
  ∃ characters : List Char, value = characters.flatMap String.utf8EncodeChar

theorem isValidUtf8_eq_true {value : Bytes} : isValidUtf8 value = some true ↔ Utf8 value := by
  obtain ⟨valid, hvalid, hiff⟩ := @validFrom_eq value _ (Nat.zero_le _)
  show validFrom value 0 = some true ↔ _
  rw [hvalid, Option.some.injEq]
  exact hiff

section Rows

variable {field : Bytes} {fields record : List Bytes}

/-- A written field is read up to a place where it may end. -/
theorem readFrom_writeField (rest : Bytes) : ∃ place : Csv.Place, place.Ends ∧
    Csv.readFrom .start [] record (writeField field ++ rest) =
      Csv.readFrom place field record rest := by
  unfold writeField
  split
  · refine ⟨.closed, .inr (.inr rfl), ?_⟩
    rw [List.append_assoc, List.append_assoc]
    exact Csv.readFrom_quoted
  · rename_i hplain
    refine Csv.readFrom_start fun byte hbyte hspecial => hplain ?_
    exact List.any_eq_true.mpr ⟨byte, hbyte, decide_eq_true hspecial⟩

/-- The fields of a row that has one. -/
theorem readFrom_writeFields (rest : Bytes) :
    Csv.readFrom .start [] record (writeFields (field :: fields) ++
        Csv.carriageReturn :: Csv.lineFeed :: rest) =
      (Csv.readFrom .start [] [] rest).map ((record ++ field :: fields) :: ·) := by
  induction fields generalizing field record with
  | nil =>
      have hfields : writeFields [field] = writeField field := List.append_nil _
      obtain ⟨place, hends, hfield⟩ := @readFrom_writeField field record
        (Csv.carriageReturn :: Csv.lineFeed :: rest)
      rw [hfields, hfield, Csv.readFrom_lineEnd hends]
  | cons next fields ih =>
      have hfields : writeFields (field :: next :: fields) =
          writeField field ++ Csv.comma :: writeFields (next :: fields) := rfl
      obtain ⟨place, hends, hfield⟩ := @readFrom_writeField field record
        (Csv.comma :: (writeFields (next :: fields) ++
          Csv.carriageReturn :: Csv.lineFeed :: rest))
      rw [hfields, List.append_assoc, List.cons_append, hfield, Csv.readFrom_comma hends, ih,
        List.append_assoc, List.singleton_append]

theorem writeRow_eq_ok {text : Bytes} : writeRow fields = .ok text ↔
    (∀ field ∈ fields, Utf8 field) ∧
      writeFields fields ++ [Csv.carriageReturn, Csv.lineFeed] = text := by
  have hcheck (field : Bytes) (_ : field ∈ fields) :
      failIf (isValidUtf8 field ≠ some true)
        (CsvFormatError.mk "CSV field is not valid UTF-8") = .ok () ↔ Utf8 field := by
    rw [failIf_eq_ok, not_not, isValidUtf8_eq_true]
  unfold writeRow
  rw [bind_eq_ok]
  constructor
  · intro ⟨_, hvalid, htext⟩
    exact ⟨(forM_eq_ok hcheck).mp hvalid, Except.ok.inj htext⟩
  · intro ⟨hvalid, htext⟩
    exact ⟨(), (forM_eq_ok hcheck).mpr hvalid, congrArg Except.ok htext⟩

theorem writeTable_eq_ok {rows : List (List Bytes)} {text : Bytes} :
    writeTable rows = .ok text ↔ (∀ row ∈ rows, ∀ field ∈ row, Utf8 field) ∧
      rows.flatMap (fun row => writeFields row ++ [Csv.carriageReturn, Csv.lineFeed]) =
        text := by
  unfold writeTable
  rw [bind_eq_ok]
  constructor
  · intro ⟨texts, htexts, htext⟩
    obtain ⟨hvalid, rfl⟩ := (mapM_eq_ok fun _ _ _ => writeRow_eq_ok).mp htexts
    exact ⟨hvalid, Except.ok.inj htext⟩
  · intro ⟨hvalid, htext⟩
    exact ⟨_, (mapM_eq_ok fun _ _ _ => writeRow_eq_ok).mpr ⟨hvalid, rfl⟩, congrArg Except.ok htext⟩

/-- The reader recovers the rows of a table. -/
theorem read_writeTable {rows : List (List Bytes)} {text : Bytes}
    (hrows : ∀ row ∈ rows, row ≠ []) (h : writeTable rows = .ok text) :
    Csv.read text = some rows := by
  obtain ⟨-, rfl⟩ := writeTable_eq_ok.mp h
  unfold Csv.read
  clear h
  induction rows with
  | nil => rfl
  | cons row rows ih =>
      obtain ⟨hrow, hnext⟩ := List.forall_mem_cons.mp hrows
      obtain ⟨field, fields, rfl⟩ := List.exists_cons_of_ne_nil hrow
      rw [List.flatMap_cons, List.append_assoc]
      exact (readFrom_writeFields _).trans
        (congrArg (Option.map (([] ++ field :: fields) :: ·)) (ih hnext))

end Rows

/-! ## Stacks -/

/-- `ResolvedStackFrame` -/
structure ResolvedStackFrame where
  absoluteAddress : ℕ
  moduleName : Option Bytes
  moduleOffset : Option ℕ
  symbolName : Option Bytes
  symbolOffset : Option ℕ
deriving DecidableEq, Repr

/-- `digits`, and what `std::to_chars` writes for a value below 16. -/
def hexDigit (value : ℕ) : UInt8 :=
  if value < 10 then UInt8.ofNat (0x30 + value) else UInt8.ofNat (0x61 + (value - 10))

/-- `std::to_chars` with base 16. -/
def hexDigits (value : ℕ) : Bytes :=
  if value < 16 then [hexDigit value] else hexDigits (value / 16) ++ [hexDigit (value % 16)]

/-- `hex_value` -/
def hexValue (value minimumDigits : ℕ) : Bytes :=
  [0x30, 0x78] ++ List.replicate (minimumDigits - (hexDigits value).length) 0x30 ++ hexDigits value

/-- `address_value` -/
def addressValue (address : ℕ) (header : Trace.FileHeader) : Bytes :=
  hexValue address (header.pointerWidth * 2)

/-- The `switch` of `escape_stack_component`. -/
def escapeByte (byte : UInt8) : Bytes :=
  if byte = 0x5C then [0x5C, 0x5C]
  else if byte = 0x7C then [0x5C, 0x7C]
  else if byte = 0x3B then [0x5C, 0x3B]
  else if byte = 0x0A then [0x5C, 0x6E]
  else if byte = 0x0D then [0x5C, 0x72]
  else if byte = 0x09 then [0x5C, 0x74]
  else if byte < 0x20 then
    [0x5C, 0x78, hexDigit (byte.toNat / 16), hexDigit (byte.toNat % 16)]
  else [byte]

/-- `escape_stack_component` -/
def escapeStackComponent (value : Bytes) : Except CsvFormatError Bytes := do
  failIf (isValidUtf8 value ≠ some true) ⟨"stack frame text is not valid UTF-8"⟩
  return value.flatMap escapeByte

/-- A component that may be missing. -/
def optionalComponent (value : Option Bytes) : Except CsvFormatError Bytes :=
  match value with
  | some name => escapeStackComponent name
  | none => .ok []

def optionalHex (value : Option ℕ) : Bytes :=
  match value with
  | some offset => hexValue offset 0
  | none => []

/-- One turn of the loop of `stack_frames_value`. -/
def stackFrameValue (header : Trace.FileHeader) (frame : ResolvedStackFrame) :
    Except CsvFormatError Bytes := do
  failIf (frame.moduleOffset.isSome ∧ ¬ frame.moduleName.isSome)
    ⟨"stack frame module offset requires a module name"⟩
  failIf (frame.symbolOffset.isSome ∧ ¬ frame.symbolName.isSome)
    ⟨"stack frame symbol offset requires a symbol name"⟩
  let module ← optionalComponent frame.moduleName
  let symbol ← optionalComponent frame.symbolName
  return addressValue frame.absoluteAddress header ++ [0x7C] ++ module ++ [0x7C] ++
    optionalHex frame.moduleOffset ++ [0x7C] ++ symbol ++ [0x7C] ++ optionalHex frame.symbolOffset

/-- `stack_frames_value` -/
def stackFramesValue (header : Trace.FileHeader) (frames : List ResolvedStackFrame) :
    Except CsvFormatError Bytes := do
  let values ← frames.mapM (stackFrameValue header)
  return separated 0x3B true values

/-! ## Reading the stacks back -/

/-- What `stack_frames_value` demands of a frame, and names that are not empty. -/
structure ResolvedStackFrame.Presentable (frame : ResolvedStackFrame) : Prop where
  moduleOffset : frame.moduleOffset.isSome → frame.moduleName.isSome
  symbolOffset : frame.symbolOffset.isSome → frame.symbolName.isSome
  moduleName : ∀ name, frame.moduleName = some name → name ≠ [] ∧ Utf8 name
  symbolName : ∀ name, frame.symbolName = some name → name ≠ [] ∧ Utf8 name

def unhexDigit (byte : UInt8) : Option ℕ :=
  if 0x30 ≤ byte ∧ byte ≤ 0x39 then some (byte.toNat - 0x30)
  else if 0x61 ≤ byte ∧ byte ≤ 0x66 then some (byte.toNat - 0x61 + 10)
  else none

/-- What a single character behind a backslash stands for. -/
def unescapeByte (code : UInt8) : UInt8 :=
  if code = 0x6E then 0x0A else if code = 0x72 then 0x0D else if code = 0x74 then 0x09 else code

/-- A component up to an unescaped bar or semicolon, and what follows it. -/
def readComponent : Bytes → Option (Bytes × Bytes)
  | [] => some ([], [])
  | byte :: rest =>
      if byte = 0x7C ∨ byte = 0x3B then some ([], byte :: rest)
      else if byte = 0x5C then
        match rest with
        | [] => none
        | code :: rest =>
            if code = 0x78 then
              match rest with
              | high :: low :: rest => do
                  let high ← unhexDigit high
                  let low ← unhexDigit low
                  (readComponent rest).map (Prod.map (UInt8.ofNat (16 * high + low) :: ·) id)
              | _ => none
            else (readComponent rest).map (Prod.map (unescapeByte code :: ·) id)
      else (readComponent rest).map (Prod.map (byte :: ·) id)

def readHex (text : Bytes) : Option ℕ :=
  if text.take 2 = [0x30, 0x78] then
    (text.drop 2).foldlM (fun value digit => (unhexDigit digit).map (16 * value + ·)) 0
  else none

def readOptionalHex (text : Bytes) : Option (Option ℕ) :=
  if text = [] then some none else (readHex text).map some

def readBar : Bytes → Option Bytes
  | [] => none
  | byte :: rest => if byte = 0x7C then some rest else none

def readFrame (input : Bytes) : Option (ResolvedStackFrame × Bytes) := do
  let (address, rest) ← readComponent input
  let (moduleName, rest) ← readComponent (← readBar rest)
  let (moduleOffset, rest) ← readComponent (← readBar rest)
  let (symbolName, rest) ← readComponent (← readBar rest)
  let (symbolOffset, rest) ← readComponent (← readBar rest)
  return (⟨← readHex address, if moduleName = [] then none else some moduleName,
    ← readOptionalHex moduleOffset, if symbolName = [] then none else some symbolName,
    ← readOptionalHex symbolOffset⟩, rest)

/-- Up to `count` frames between semicolons. -/
def readFrames : ℕ → Bytes → Option (List ResolvedStackFrame)
  | 0, _ => none
  | count + 1, input => do
      let (frame, rest) ← readFrame input
      match rest with
      | [] => return [frame]
      | byte :: rest =>
          if byte = 0x3B then return frame :: (← readFrames count rest) else none

/-- The frames of a stack field. -/
def readStackFrames (value : Bytes) : Option (List ResolvedStackFrame) :=
  if value = [] then some [] else readFrames value.length value

section Stacks

variable {rest : Bytes}

theorem unhexDigit_hexDigit {value : ℕ} (h : value < 16) :
    unhexDigit (hexDigit value) = some value := by
  interval_cases value <;> rfl

theorem escapeByte_hexDigit {value : ℕ} (h : value < 16) :
    escapeByte (hexDigit value) = [hexDigit value] := by
  interval_cases value <;> rfl

theorem hexDigit_not_special {value : ℕ} (h : value < 16) :
    hexDigit value ≠ 0x7C ∧ hexDigit value ≠ 0x3B ∧ hexDigit value ≠ 0x5C := by
  interval_cases value <;> decide

theorem readComponent_nil : readComponent [] = some ([], []) := by
  rw [readComponent]

theorem readComponent_stop {byte : UInt8} (h : byte = 0x7C ∨ byte = 0x3B) :
    readComponent (byte :: rest) = some ([], byte :: rest) := by
  rw [readComponent.eq_def]
  exact if_pos h

theorem readComponent_escape {code : UInt8} (h : code ≠ 0x78) :
    readComponent (0x5C :: code :: rest) =
      (readComponent rest).map (Prod.map (unescapeByte code :: ·) id) := by
  rw [readComponent.eq_def]
  exact (if_neg (by decide)).trans ((if_pos rfl).trans (if_neg h))

theorem readComponent_hex {high low : ℕ} (hhigh : high < 16) (hlow : low < 16) :
    readComponent (0x5C :: 0x78 :: hexDigit high :: hexDigit low :: rest) =
      (readComponent rest).map (Prod.map (UInt8.ofNat (16 * high + low) :: ·) id) := by
  rw [readComponent.eq_def]
  show ((unhexDigit (hexDigit high)).bind fun high => (unhexDigit (hexDigit low)).bind fun low =>
    (readComponent rest).map (Prod.map (UInt8.ofNat (16 * high + low) :: ·) id)) = _
  rw [unhexDigit_hexDigit hhigh, unhexDigit_hexDigit hlow, Option.bind_some, Option.bind_some]

/-- An escaped byte is read back. -/
theorem readComponent_escapeByte (byte : UInt8) : readComponent (escapeByte byte ++ rest) =
    (readComponent rest).map (Prod.map (byte :: ·) id) := by
  by_cases hslash : byte = 0x5C
  · subst hslash
    exact readComponent_escape (by decide)
  by_cases hbar : byte = 0x7C
  · subst hbar
    exact readComponent_escape (by decide)
  by_cases hsemicolon : byte = 0x3B
  · subst hsemicolon
    exact readComponent_escape (by decide)
  by_cases hfeed : byte = 0x0A
  · subst hfeed
    exact readComponent_escape (by decide)
  by_cases hreturn : byte = 0x0D
  · subst hreturn
    exact readComponent_escape (by decide)
  by_cases htab : byte = 0x09
  · subst htab
    exact readComponent_escape (by decide)
  unfold escapeByte
  rw [if_neg hslash, if_neg hbar, if_neg hsemicolon, if_neg hfeed, if_neg hreturn, if_neg htab]
  by_cases hcontrol : byte < 0x20
  · have hvalue : byte.toNat < 32 := hcontrol
    have hbyte : UInt8.ofNat (16 * (byte.toNat / 16) + byte.toNat % 16) = byte := by
      rw [Nat.div_add_mod, UInt8.ofNat_toNat]
    rw [if_pos hcontrol]
    show readComponent (0x5C :: 0x78 :: _ :: _ :: rest) = _
    rw [readComponent_hex (by omega) (by omega), hbyte]
  · rw [if_neg hcontrol, List.singleton_append, readComponent.eq_def]
    exact (if_neg (not_or.mpr ⟨hbar, hsemicolon⟩)).trans (if_neg hslash)

/-- A component ends here. -/
def Stops (rest : Bytes) : Prop :=
  rest = [] ∨ ∃ byte tail, rest = byte :: tail ∧ (byte = 0x7C ∨ byte = 0x3B)

theorem readComponent_stops (h : Stops rest) : readComponent rest = some ([], rest) := by
  obtain rfl | ⟨byte, tail, rfl, hstop⟩ := h
  · exact readComponent_nil
  · exact readComponent_stop hstop

/-- An escaped component is read back. -/
theorem readComponent_escaped (h : Stops rest) (name : Bytes) :
    readComponent (name.flatMap escapeByte ++ rest) = some (name, rest) := by
  induction name with
  | nil => exact readComponent_stops h
  | cons byte name ih =>
      rw [List.flatMap_cons, List.append_assoc, readComponent_escapeByte, ih]
      rfl

/-! ### Numbers -/

theorem hexDigits_foldlM (value : ℕ) : (hexDigits value).foldlM
    (fun value digit => (unhexDigit digit).map (16 * value + ·)) 0 = some value := by
  induction value using Nat.strongRecOn with
  | ind value ih =>
      rw [hexDigits]
      split
      · rename_i hsmall
        show ((unhexDigit (hexDigit value)).map (16 * 0 + ·)).bind some = some value
        rw [unhexDigit_hexDigit hsmall]
        simp
      · rename_i hlarge
        rw [List.foldlM_append, ih (value / 16) (by omega)]
        show ((unhexDigit (hexDigit (value % 16))).map (16 * (value / 16) + ·)).bind some = _
        rw [unhexDigit_hexDigit (Nat.mod_lt _ (by decide))]
        show some (16 * (value / 16) + value % 16) = some value
        rw [Nat.div_add_mod]

theorem escapeByte_hexDigits (value : ℕ) :
    (hexDigits value).flatMap escapeByte = hexDigits value := by
  induction value using Nat.strongRecOn with
  | ind value ih =>
      rw [hexDigits]
      split
      · rename_i hsmall
        exact (List.append_nil _).trans (escapeByte_hexDigit hsmall)
      · rename_i hlarge
        rw [List.flatMap_append, ih (value / 16) (by omega)]
        congr 1
        exact (List.append_nil _).trans (escapeByte_hexDigit (Nat.mod_lt _ (by decide)))

theorem foldlM_zeros (count : ℕ) : (List.replicate count (0x30 : UInt8)).foldlM
    (fun value digit => (unhexDigit digit).map (16 * value + ·)) 0 = some 0 := by
  induction count with
  | zero => rfl
  | succ count ih => exact ih

theorem readHex_hexValue (value minimumDigits : ℕ) :
    readHex (hexValue value minimumDigits) = some value := by
  unfold readHex hexValue
  rw [List.append_assoc]
  show (List.replicate _ _ ++ hexDigits value).foldlM _ 0 = _
  rw [List.foldlM_append, foldlM_zeros]
  exact hexDigits_foldlM value

/-- A number has nothing to escape. -/
theorem readComponent_hexValue (h : Stops rest) (value minimumDigits : ℕ) :
    readComponent (hexValue value minimumDigits ++ rest) =
      some (hexValue value minimumDigits, rest) := by
  have hplain : hexValue value minimumDigits =
      (hexValue value minimumDigits).flatMap escapeByte := by
    have hzeros (count : ℕ) : (List.replicate count (0x30 : UInt8)).flatMap escapeByte =
        List.replicate count 0x30 := by
      induction count with
      | zero => rfl
      | succ count ih =>
          rw [List.replicate_succ, List.flatMap_cons, ih]
          rfl
    unfold hexValue
    rw [List.flatMap_append, List.flatMap_append, hzeros, escapeByte_hexDigits]
    rfl
  conv_lhs => rw [hplain]
  exact readComponent_escaped h _

/-! ### Frames -/

/-- The text of a name that may be missing. -/
def componentText (value : Option Bytes) : Bytes := (value.getD []).flatMap escapeByte

/-- The text of a frame. -/
def frameText (header : Trace.FileHeader) (frame : ResolvedStackFrame) : Bytes :=
  addressValue frame.absoluteAddress header ++ 0x7C :: (componentText frame.moduleName ++
    0x7C :: (optionalHex frame.moduleOffset ++ 0x7C :: (componentText frame.symbolName ++
      0x7C :: optionalHex frame.symbolOffset)))

variable {header : Trace.FileHeader} {frame : ResolvedStackFrame}

theorem stops_bar (tail : Bytes) : Stops (0x7C :: tail) := .inr ⟨_, _, rfl, .inl rfl⟩

theorem stops_semicolon (tail : Bytes) : Stops (0x3B :: tail) := .inr ⟨_, _, rfl, .inr rfl⟩

theorem optionalComponent_eq {value : Option Bytes} (h : ∀ name, value = some name → Utf8 name) :
    optionalComponent value = .ok (componentText value) := by
  cases value with
  | none => rfl
  | some name =>
      have hvalid := isValidUtf8_eq_true.mpr (h name rfl)
      show (failIf _ _ >>= fun _ => pure (name.flatMap escapeByte)) = _
      rw [failIf_of_not (not_not.mpr hvalid), ok_bind]
      rfl

theorem stackFrameValue_eq (h : frame.Presentable) :
    stackFrameValue header frame = .ok (frameText header frame) := by
  unfold stackFrameValue
  rw [failIf_of_not (by rw [not_and_not_right]; exact h.moduleOffset), ok_bind,
    failIf_of_not (by rw [not_and_not_right]; exact h.symbolOffset), ok_bind,
    optionalComponent_eq fun name hname => (h.moduleName name hname).2, ok_bind,
    optionalComponent_eq fun name hname => (h.symbolName name hname).2, ok_bind]
  simp only [frameText, List.append_assoc, List.singleton_append]
  rfl

theorem readComponent_text (h : Stops rest) (value : Option Bytes) :
    readComponent (componentText value ++ rest) = some (value.getD [], rest) :=
  readComponent_escaped h _

theorem readComponent_optionalHex (h : Stops rest) (value : Option ℕ) :
    readComponent (optionalHex value ++ rest) = some (optionalHex value, rest) := by
  cases value with
  | none => exact readComponent_stops h
  | some offset => exact readComponent_hexValue h offset 0

theorem hexValue_ne_nil (value minimumDigits : ℕ) : hexValue value minimumDigits ≠ [] :=
  List.cons_ne_nil _ _

theorem readOptionalHex_optionalHex (value : Option ℕ) :
    readOptionalHex (optionalHex value) = some value := by
  cases value with
  | none => rfl
  | some offset =>
      show (if hexValue offset 0 = [] then _ else (readHex (hexValue offset 0)).map some) = _
      rw [if_neg (hexValue_ne_nil offset 0), readHex_hexValue]
      rfl

theorem optional_name {value : Option Bytes} (h : ∀ name, value = some name → name ≠ []) :
    (if value.getD [] = [] then none else some (value.getD [])) = value := by
  cases value with
  | none => rfl
  | some name => exact if_neg (h name rfl)

/-- The text of a frame is read back. -/
theorem readFrame_frameText (hframe : frame.Presentable) (h : Stops rest) :
    readFrame (frameText header frame ++ rest) = some (frame, rest) := by
  have hmodule := optional_name fun name hname => (hframe.moduleName name hname).1
  have hsymbol := optional_name fun name hname => (hframe.symbolName name hname).1
  unfold readFrame frameText addressValue
  simp only [List.append_assoc, List.cons_append]
  rw [readComponent_hexValue (stops_bar _)]
  show (readComponent (componentText frame.moduleName ++ 0x7C :: _)).bind _ = _
  rw [readComponent_text (stops_bar _)]
  show (readComponent (optionalHex frame.moduleOffset ++ 0x7C :: _)).bind _ = _
  rw [readComponent_optionalHex (stops_bar _)]
  show (readComponent (componentText frame.symbolName ++ 0x7C :: _)).bind _ = _
  rw [readComponent_text (stops_bar _)]
  show (readComponent (optionalHex frame.symbolOffset ++ rest)).bind _ = _
  rw [readComponent_optionalHex h]
  show (readHex _).bind _ = _
  rw [readHex_hexValue]
  show (readOptionalHex _).bind _ = _
  rw [readOptionalHex_optionalHex]
  show (readOptionalHex _).bind _ = _
  rw [readOptionalHex_optionalHex]
  show some (ResolvedStackFrame.mk _ _ _ _ _, rest) = _
  rw [hmodule, hsymbol]

/-- The texts of frames, joined, are read back. -/
theorem readFrames_separated {frames : List ResolvedStackFrame} {count : ℕ}
    (hframe : frame.Presentable) (hframes : ∀ frame ∈ frames, frame.Presentable)
    (hcount : frames.length < count) :
    readFrames count (separated 0x3B true ((frame :: frames).map (frameText header))) =
      some (frame :: frames) := by
  induction frames generalizing frame count with
  | nil =>
      obtain ⟨count, rfl⟩ := Nat.exists_eq_add_one_of_ne_zero (Nat.ne_of_gt hcount)
      have htext : separated 0x3B true ([frame].map (frameText header)) = frameText header frame :=
        List.append_nil _
      have hread := @readFrame_frameText [] header frame hframe (.inl rfl)
      rw [List.append_nil] at hread
      rw [htext, readFrames, hread]
      rfl
  | cons next frames ih =>
      obtain ⟨count, rfl⟩ :=
        Nat.exists_eq_add_one_of_ne_zero (Nat.ne_of_gt (Nat.zero_lt_of_lt hcount))
      obtain ⟨hnext, hrest⟩ := List.forall_mem_cons.mp hframes
      have htext : separated 0x3B true ((frame :: next :: frames).map (frameText header)) =
          frameText header frame ++
            0x3B :: separated 0x3B true ((next :: frames).map (frameText header)) := rfl
      rw [htext, readFrames, readFrame_frameText hframe (stops_semicolon _)]
      show (readFrames count _).bind _ = _
      rw [ih hnext hrest (Nat.lt_of_succ_lt_succ hcount)]
      rfl

theorem length_separated (separator : UInt8) {parts : List Bytes} (h : ∀ part ∈ parts, part ≠ [])
    (first : Bool) : parts.length ≤ (separated separator first parts).length := by
  induction parts generalizing first with
  | nil => exact Nat.zero_le _
  | cons part parts ih =>
      obtain ⟨hpart, hparts⟩ := List.forall_mem_cons.mp h
      have hrest := ih hparts false
      have hpos := List.length_pos_of_ne_nil hpart
      rw [separated, List.length_append, List.length_append, List.length_cons]
      omega

theorem frameText_ne_nil : frameText header frame ≠ [] :=
  List.append_ne_nil_of_left_ne_nil (hexValue_ne_nil _ _) _

theorem stackFramesValue_eq {frames : List ResolvedStackFrame}
    (h : ∀ frame ∈ frames, frame.Presentable) : stackFramesValue header frames =
      .ok (separated 0x3B true (frames.map (frameText header))) := by
  have hmap : frames.mapM (stackFrameValue header) = .ok (frames.map (frameText header)) := by
    refine (mapM_eq_ok fun frame hframe value => ?_).mpr ⟨fun _ _ => trivial, rfl⟩
    rw [stackFrameValue_eq (h frame hframe), Except.ok.injEq]
    exact ⟨fun heq => ⟨trivial, heq⟩, fun heq => heq.2⟩
  unfold stackFramesValue
  rw [hmap, ok_bind]
  rfl

/-- The frames are recovered from the stack field. -/
theorem readStackFrames_separated {frames : List ResolvedStackFrame}
    (h : ∀ frame ∈ frames, frame.Presentable) :
    readStackFrames (separated 0x3B true (frames.map (frameText header))) = some frames := by
  cases frames with
  | nil => rfl
  | cons frame frames =>
      obtain ⟨hframe, hframes⟩ := List.forall_mem_cons.mp h
      have htexts : ∀ text ∈ (frame :: frames).map (frameText header), text ≠ [] := by
        intro text htext
        obtain ⟨_, -, rfl⟩ := List.mem_map.mp htext
        exact frameText_ne_nil
      have hlength := length_separated 0x3B htexts true
      rw [List.length_map, List.length_cons] at hlength
      unfold readStackFrames
      rw [if_neg (by
        intro hempty
        rw [hempty, List.length_nil] at hlength
        omega)]
      exact readFrames_separated hframe hframes (by omega)

/-! ### The field of a stack in a row -/

theorem Utf8.append {left right : Bytes} (hleft : Utf8 left) (hright : Utf8 right) :
    Utf8 (left ++ right) := by
  obtain ⟨characters, rfl⟩ := hleft
  obtain ⟨others, rfl⟩ := hright
  exact ⟨characters ++ others, (List.flatMap_append).symm⟩

theorem utf8_nil : Utf8 [] := ⟨[], rfl⟩

theorem utf8_ascii {text : Bytes} (h : ∀ byte ∈ text, byte ≤ 0x7f) : Utf8 text := by
  induction text with
  | nil => exact utf8_nil
  | cons byte text ih =>
      obtain ⟨hbyte, htext⟩ := List.forall_mem_cons.mp h
      have hvalue : byte.toNat ≤ 0x7f := hbyte
      obtain ⟨c, hencode, -⟩ := @exists_char byte.toNat (by omega)
      have hencode := hencode hvalue
      rw [UInt8.ofNat_toNat] at hencode
      have hfirst : Utf8 [byte] := ⟨[c], by rw [List.flatMap_singleton, hencode]⟩
      exact hfirst.append (ih htext)

theorem utf8_of_all {text : Bytes} (h : (text.all fun byte => byte ≤ 0x7f) = true) : Utf8 text :=
  utf8_ascii fun byte hbyte => of_decide_eq_true (List.all_eq_true.mp h byte hbyte)

theorem hexDigit_ascii {value : ℕ} (h : value < 16) : hexDigit value ≤ 0x7f := by
  interval_cases value <;> decide

theorem escapeByte_ascii {byte : UInt8} (h : byte ≤ 0x7f) : ∀ b ∈ escapeByte byte, b ≤ 0x7f := by
  unfold escapeByte
  by_cases hcontrol : byte < 0x20
  · have hvalue : byte.toNat < 32 := hcontrol
    have hhigh := @hexDigit_ascii (byte.toNat / 16) (by omega)
    have hlow := @hexDigit_ascii (byte.toNat % 16) (by omega)
    rw [if_pos hcontrol]
    split_ifs <;> simp only [List.forall_mem_cons, List.not_mem_nil, false_imp_iff, implies_true,
      and_true, hhigh, hlow] <;> decide
  · rw [if_neg hcontrol]
    split_ifs <;> simp only [List.forall_mem_cons, List.not_mem_nil, false_imp_iff, implies_true,
      and_true, h] <;> decide

theorem escapeByte_of_high {byte : UInt8} (h : 0x80 ≤ byte) : escapeByte byte = [byte] := by
  have hne {code : UInt8} (hcode : code < 0x80) : byte ≠ code :=
    fun heq => UInt8.not_le.mpr hcode (heq ▸ h)
  have hplain : ¬ byte < 0x20 :=
    fun hcontrol => UInt8.not_le.mpr (UInt8.lt_of_lt_of_le hcontrol (by decide)) h
  unfold escapeByte
  rw [if_neg (hne (by decide)), if_neg (hne (by decide)), if_neg (hne (by decide)),
    if_neg (hne (by decide)), if_neg (hne (by decide)), if_neg (hne (by decide)), if_neg hplain]

theorem escaped_of_high {text : Bytes} (h : ∀ byte ∈ text, 0x80 ≤ byte) :
    text.flatMap escapeByte = text := by
  induction text with
  | nil => rfl
  | cons byte text ih =>
      obtain ⟨hbyte, htext⟩ := List.forall_mem_cons.mp h
      rw [List.flatMap_cons, escapeByte_of_high hbyte, ih htext, List.singleton_append]

theorem Utf8.escaped {name : Bytes} (h : Utf8 name) : Utf8 (name.flatMap escapeByte) := by
  obtain ⟨characters, rfl⟩ := h
  induction characters with
  | nil => exact utf8_nil
  | cons c characters ih =>
      rw [List.flatMap_cons, List.flatMap_append]
      refine Utf8.append ?_ ih
      obtain ⟨byte, hascii, hencode⟩ | hhigh := encode_bytes c
      · rw [hencode, List.flatMap_singleton]
        exact utf8_ascii (escapeByte_ascii hascii)
      · rw [escaped_of_high hhigh]
        exact ⟨[c], (List.flatMap_singleton _ _).symm⟩

theorem utf8_hexValue (value minimumDigits : ℕ) : Utf8 (hexValue value minimumDigits) := by
  have hdigits : ∀ digit ∈ hexDigits value, digit ≤ 0x7f := by
    induction value using Nat.strongRecOn with
    | ind value ih =>
        rw [hexDigits]
        split
        · rename_i hsmall
          exact List.forall_mem_singleton.mpr (hexDigit_ascii hsmall)
        · rename_i hlarge
          rw [List.forall_mem_append]
          exact ⟨ih (value / 16) (by omega),
            List.forall_mem_singleton.mpr (hexDigit_ascii (Nat.mod_lt _ (by decide)))⟩
  have hzeros : ∀ digit ∈ List.replicate (minimumDigits - (hexDigits value).length) (0x30 : UInt8),
      digit ≤ 0x7f := by
    intro digit hdigit
    rw [List.eq_of_mem_replicate hdigit]
    decide
  exact ((@utf8_of_all [0x30, 0x78] rfl).append (utf8_ascii hzeros)).append (utf8_ascii hdigits)

theorem utf8_optionalHex (value : Option ℕ) : Utf8 (optionalHex value) := by
  cases value with
  | none => exact utf8_nil
  | some offset => exact utf8_hexValue offset 0

theorem utf8_componentText {value : Option Bytes} (h : ∀ name, value = some name → Utf8 name) :
    Utf8 (componentText value) := by
  cases value with
  | none => exact utf8_nil
  | some name => exact (h name rfl).escaped

theorem utf8_frameText (h : frame.Presentable) : Utf8 (frameText header frame) := by
  have hbar {tail : Bytes} (htail : Utf8 tail) : Utf8 (0x7C :: tail) :=
    @Utf8.append [0x7C] tail (utf8_of_all rfl) htail
  have hmodule := utf8_componentText fun name hname => (h.moduleName name hname).2
  have hsymbol := utf8_componentText fun name hname => (h.symbolName name hname).2
  exact (utf8_hexValue _ _).append (hbar (hmodule.append (hbar ((utf8_optionalHex _).append
    (hbar (hsymbol.append (hbar (utf8_optionalHex _))))))))

theorem utf8_separated {separator : UInt8} (hseparator : separator ≤ 0x7f) {parts : List Bytes}
    (h : ∀ part ∈ parts, Utf8 part) (first : Bool) : Utf8 (separated separator first parts) := by
  induction parts generalizing first with
  | nil => exact utf8_nil
  | cons part parts ih =>
      obtain ⟨hpart, hparts⟩ := List.forall_mem_cons.mp h
      have hfirst : Utf8 (if first then [] else [separator]) := by
        cases first with
        | true => exact utf8_nil
        | false => exact utf8_ascii (List.forall_mem_singleton.mpr hseparator)
      rw [separated]
      exact (hfirst.append hpart).append (ih hparts false)

end Stacks

/-- A reader recovers the fields of the rows that were written, and the frames of a stack are
recovered from their field, which is text that a row accepts. -/
theorem csv_lossless :
    (∀ rows : List (List Bytes), (∀ row ∈ rows, row ≠ [] ∧ ∀ field ∈ row, Utf8 field) →
      ∃ text, writeTable rows = .ok text ∧ Csv.read text = some rows) ∧
    (∀ rows others text, (∀ row ∈ rows, row ≠ []) → (∀ row ∈ others, row ≠ []) →
      writeTable rows = .ok text → writeTable others = .ok text → rows = others) ∧
    ∀ header frames, (∀ frame ∈ frames, frame.Presentable) →
      ∃ value, stackFramesValue header frames = .ok value ∧ Utf8 value ∧
        readStackFrames value = some frames := by
  refine ⟨fun rows hrows => ?_, fun rows others text hrows hothers htext htext' => ?_,
    fun header frames hframes => ?_⟩
  · have htext : writeTable rows = .ok _ :=
      writeTable_eq_ok.mpr ⟨fun row hrow => (hrows row hrow).2, rfl⟩
    exact ⟨_, htext, read_writeTable (fun row hrow => (hrows row hrow).1) htext⟩
  · have hread := (read_writeTable hrows htext).symm.trans (read_writeTable hothers htext')
    exact Option.some.inj hread
  · refine ⟨_, stackFramesValue_eq hframes, utf8_separated (by decide) ?_ true,
      readStackFrames_separated hframes⟩
    intro text htext
    obtain ⟨frame, hframe, rfl⟩ := List.mem_map.mp htext
    exact utf8_frameText (hframes frame hframe)

/-- A row with a comma, a quote, an empty field and a line break, and a frame whose module name
holds the separators. -/
theorem csv_lossless_sample :
    let rows : List (List Bytes) := [[[0x61, 0x2C], [0x22]], [[], [0x0D, 0x0A]]]
    let header : Trace.FileHeader := ⟨8, .linux, .x64, 0, [], 0, 1, 0, 0⟩
    let frame : ResolvedStackFrame := ⟨0x401000, some [0x7C, 0x5C], some 16, none, none⟩
    (∃ text, writeTable rows = .ok text ∧ Csv.read text = some rows) ∧
      ∃ value, stackFramesValue header [frame] = .ok value ∧ Utf8 value ∧
        readStackFrames value = some [frame] := by
  intro rows header frame
  have hrows : ∀ row ∈ rows, row ≠ [] ∧ ∀ field ∈ row, Utf8 field := by
    have hascii : (rows.all fun row => !row.isEmpty && row.all fun field =>
        field.all fun byte => byte ≤ 0x7f) = true := rfl
    intro row hrow
    obtain ⟨hne, hfields⟩ := (Bool.and_eq_true _ _).mp (List.all_eq_true.mp hascii row hrow)
    refine ⟨?_, fun field hfield => utf8_of_all (List.all_eq_true.mp hfields field hfield)⟩
    intro heq
    rw [heq] at hne
    cases hne
  have hframe : frame.Presentable := {
    moduleOffset := fun _ => rfl
    symbolOffset := fun h => nomatch h
    moduleName := by
      intro name hname
      cases hname
      exact ⟨List.cons_ne_nil _ _, utf8_of_all rfl⟩
    symbolName := fun _ h => nomatch h }
  exact ⟨csv_lossless.1 rows hrows,
    csv_lossless.2.2 header [frame] (List.forall_mem_singleton.mpr hframe)⟩

end Noleax.Analyzer
