import Noleax.Lib.Bytes

/-!
# A reader of comma-separated values

The records of RFC 4180: fields between commas, records between CRLF, and fields in double
quotes with the quotes in them doubled. The reader goes over the bytes once; where it stands
in a field is a `Place`. What ends a field is read the same from every place at which a field
may end.
-/

namespace Noleax.Lib.Csv

def comma : UInt8 := 0x2C
def quote : UInt8 := 0x22
def carriageReturn : UInt8 := 0x0D
def lineFeed : UInt8 := 0x0A

/-- Where the reader stands. -/
inductive Place where
  /-- in front of a field -/
  | start
  /-- in a field without quotes -/
  | plain
  /-- behind an opening quote -/
  | quoted
  /-- behind a quote in a quoted field, which closes it or is the first of two -/
  | closed
  /-- behind the carriage return that ends a record -/
  | lineEnd
deriving DecidableEq, Repr

/-- Reads on from a place, with the fields of the record so far and the bytes of its last one. -/
def readFrom (place : Place) (field : Bytes) (record : List Bytes) :
    Bytes → Option (List (List Bytes))
  | [] =>
      match place with
      | .start => if record = [] then some [] else some [record ++ [field]]
      | .plain | .closed => some [record ++ [field]]
      | .quoted | .lineEnd => none
  | byte :: rest =>
      match place with
      | .quoted =>
          if byte = quote then readFrom .closed field record rest
          else readFrom .quoted (field ++ [byte]) record rest
      | .lineEnd =>
          if byte = lineFeed then (readFrom .start [] [] rest).map ((record ++ [field]) :: ·)
          else none
      | _ =>
          if byte = comma then readFrom .start [] (record ++ [field]) rest
          else if byte = carriageReturn then readFrom .lineEnd field record rest
          else match place with
            | .start =>
                if byte = quote then readFrom .quoted [] record rest
                else if byte = lineFeed then none
                else readFrom .plain (field ++ [byte]) record rest
            | .plain =>
                if byte = quote ∨ byte = lineFeed then none
                else readFrom .plain (field ++ [byte]) record rest
            | _ =>
                if byte = quote then readFrom .quoted (field ++ [quote]) record rest
                else none

/-- The records of a file. -/
def read (input : Bytes) : Option (List (List Bytes)) := readFrom .start [] [] input

/-! ## Fields -/

/-- A field may end here. -/
def Place.Ends (place : Place) : Prop := place = .start ∨ place = .plain ∨ place = .closed

/-- The bytes that a field without quotes does not have. -/
def Special (byte : UInt8) : Prop :=
  byte = comma ∨ byte = quote ∨ byte = carriageReturn ∨ byte = lineFeed

instance (byte : UInt8) : Decidable (Special byte) := inferInstanceAs (Decidable (_ ∨ _))

section Fields

variable {place : Place} {field more rest : Bytes} {record : List Bytes}

theorem readFrom_comma (h : place.Ends) : readFrom place field record (comma :: rest) =
    readFrom .start [] (record ++ [field]) rest := by
  obtain rfl | rfl | rfl := h <;> rfl

theorem readFrom_lineEnd (h : place.Ends) :
    readFrom place field record (carriageReturn :: lineFeed :: rest) =
      (readFrom .start [] [] rest).map ((record ++ [field]) :: ·) := by
  obtain rfl | rfl | rfl := h <;> rfl

/-- A field without special bytes. -/
theorem readFrom_plain (hmore : ∀ byte ∈ more, ¬ Special byte) :
    readFrom .plain field record (more ++ rest) = readFrom .plain (field ++ more) record rest := by
  induction more generalizing field with
  | nil => rw [List.append_nil, List.nil_append]
  | cons byte more ih =>
      obtain ⟨hbyte, hmore⟩ := List.forall_mem_cons.mp hmore
      simp only [Special, not_or] at hbyte
      obtain ⟨hcomma, hquote, hreturn, hfeed⟩ := hbyte
      have hstep : readFrom .plain field record (byte :: (more ++ rest)) =
          readFrom .plain (field ++ [byte]) record (more ++ rest) := by
        simp only [readFrom, if_neg hcomma, if_neg hreturn, if_neg (not_or.mpr ⟨hquote, hfeed⟩)]
      rw [List.cons_append, hstep, ih hmore, List.append_assoc, List.singleton_append]

theorem readFrom_start (hmore : ∀ byte ∈ more, ¬ Special byte) : ∃ place : Place, place.Ends ∧
    readFrom .start [] record (more ++ rest) = readFrom place more record rest := by
  cases more with
  | nil => exact ⟨.start, .inl rfl, rfl⟩
  | cons byte more =>
      obtain ⟨hbyte, hmore⟩ := List.forall_mem_cons.mp hmore
      simp only [Special, not_or] at hbyte
      obtain ⟨hcomma, hquote, hreturn, hfeed⟩ := hbyte
      have hstep : readFrom .start [] record (byte :: (more ++ rest)) =
          readFrom .plain [byte] record (more ++ rest) := by
        simp only [readFrom, if_neg hcomma, if_neg hreturn, if_neg hquote, if_neg hfeed,
          List.nil_append]
      exact ⟨.plain, .inr (.inl rfl), by rw [List.cons_append, hstep, readFrom_plain hmore]; rfl⟩

/-- The bytes of a field with its quotes doubled. -/
def doubled (field : Bytes) : Bytes :=
  field.flatMap fun byte => if byte = quote then [quote, quote] else [byte]

theorem readFrom_doubled : readFrom .quoted field record (doubled more ++ rest) =
    readFrom .quoted (field ++ more) record rest := by
  induction more generalizing field with
  | nil => rw [List.append_nil]; rfl
  | cons byte more ih =>
      have hbytes : doubled (byte :: more) ++ rest =
          (if byte = quote then [quote, quote] else [byte]) ++ (doubled more ++ rest) :=
        List.append_assoc ..
      rw [hbytes]
      by_cases hquote : byte = quote
      · subst hquote
        rw [if_pos rfl]
        show readFrom .quoted (field ++ [quote]) record (doubled more ++ rest) = _
        rw [ih, List.append_assoc, List.singleton_append]
      · rw [if_neg hquote]
        show (if byte = quote then _ else readFrom .quoted (field ++ [byte]) record
          (doubled more ++ rest)) = _
        rw [if_neg hquote, ih, List.append_assoc, List.singleton_append]

/-- A field in quotes. -/
theorem readFrom_quoted : readFrom .start [] record (quote :: (doubled more ++ quote :: rest)) =
    readFrom .closed more record rest := by
  show readFrom .quoted [] record (doubled more ++ quote :: rest) = _
  rw [readFrom_doubled]
  rfl

end Fields

end Noleax.Lib.Csv
