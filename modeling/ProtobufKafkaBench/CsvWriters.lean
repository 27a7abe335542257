import ProtobufKafkaBench.CsvReaders

/-!
The text that the csv writer of a Python script makes of records, with the line ending and the
quotes of its default dialect. The csv reader gets every list of records back from it, so two
tables with the same text are the same.
-/
namespace ProtobufKafkaBench.CsvWriters

open ByteBuffers CsvTables CsvReaders

section Writer

/-- The bytes for which a field is put into quotes. -/
def isSpecial (b : UInt8) : Bool := b = 44 ∨ b = 34 ∨ b = 13 ∨ b = 10

/-- A quote inside quotes is written twice. -/
def doubled (b : UInt8) : Bytes := if b = 34 then [34, 34] else [b]

def fieldText (field : Bytes) : Bytes :=
  if field.any isSpecial then 34 :: (field.flatMap doubled ++ [34]) else field

/-- A single empty field gets quotes, as it could not be told from no field otherwise. -/
def lineText (record : List Bytes) : Bytes :=
  (if record = [[]] then [34, 34] else [44].intercalate (record.map fieldText)) ++ [13, 10]

def tableText (records : List (List Bytes)) : Bytes := records.flatMap lineText

example : tableText [[ascii "a", ascii "b,\"c"], [[]]] = ascii "a,\"b,\"\"c\"\x0d\n\"\"\x0d\n" := by
  decide

end Writer

section Lines

variable {reader next : Reader} {field text rest : Bytes} {fields : List Bytes} {b : UInt8}

/-- What the reader makes of the rest of a text, from wherever it is in a line. -/
def readFrom (reader : Reader) (text : Bytes) : Option (List (List Bytes)) :=
  recordsFrom reader (splitLines [] text)

/-- The first line of a text, behind what its line has had before. -/
theorem splitLines_first (h : text ≠ []) :
    ∃ piece more, ∀ line, splitLines line text = (line ++ piece) :: more := by
  fun_induction splitLines [] text with
  | case1 => exact absurd rfl h
  | case2 => exact absurd rfl h
  | case3 line rest ih => exact ⟨[13, 10], splitLines [] rest, fun _ => rfl⟩
  | case4 line rest hrest ih =>
    refine ⟨[13], splitLines [] rest, fun line => ?_⟩
    rw [splitLines.eq_def]
    split <;> simp_all
  | case5 line rest ih => exact ⟨[10], splitLines [] rest, fun _ => rfl⟩
  | case6 line b rest hpair hreturn hnewline ih =>
    have hcons : ∀ line, splitLines line (b :: rest) = splitLines (line ++ [b]) rest := by
      intro line
      rw [splitLines.eq_def]
      split <;> simp_all
    by_cases hrest : rest = []
    · subst hrest
      refine ⟨[b], [], fun line => ?_⟩
      rw [hcons, splitLines, if_neg (by simp)]
    · obtain ⟨piece, more, hmore⟩ := ih hrest
      refine ⟨b :: piece, more, fun line => ?_⟩
      rw [hcons, hmore, List.append_assoc]
      rfl

/-- A byte that ends no line is read, and the reader goes on with the rest. -/
theorem readFrom_byte (hb : b ≠ 10 ∧ b ≠ 13) (hrest : rest ≠ [])
    (hbyte : reader.byte b = some next) : readFrom reader (b :: rest) = readFrom next rest := by
  obtain ⟨piece, more, hpiece⟩ := splitLines_first hrest
  have hsplit : splitLines [] (b :: rest) = splitLines [b] rest := by
    rw [splitLines.eq_def]
    split <;> simp_all
  have hline : reader.line ([b] ++ piece) = next.line piece := by
    unfold Reader.line
    rw [List.foldlM_append, List.foldlM_cons, hbyte]
    rfl
  have hfirst : splitLines [] rest = piece :: more := hpiece []
  unfold readFrom
  rw [hsplit, hpiece, hfirst, recordsFrom, recordsFrom, hline]

/-- Line endings inside quotes are bytes of the field, on whichever lines they stand. -/
theorem readFrom_inQuoted (hb : b ≠ 34) (hrest : rest ≠ []) :
    readFrom ⟨.inQuoted, field, fields⟩ (b :: rest) =
      readFrom ⟨.inQuoted, field ++ [b], fields⟩ rest := by
  have hbyte : Reader.byte ⟨.inQuoted, field, fields⟩ b =
      some ⟨.inQuoted, field ++ [b], fields⟩ := by
    simp [Reader.byte, Reader.add, hb]
  have hnewline : ∀ (f text : Bytes), readFrom ⟨.inQuoted, f, fields⟩ (10 :: text) =
      readFrom ⟨.inQuoted, f ++ [10], fields⟩ text := fun _ _ => rfl
  by_cases h10 : b = 10
  · subst h10
    exact hnewline field rest
  · by_cases h13 : b = 13
    · subst h13
      cases rest with
      | nil => exact absurd rfl hrest
      | cons c rest =>
        by_cases hc : c = 10
        · subst hc
          have hpair : readFrom ⟨.inQuoted, field, fields⟩ (13 :: 10 :: rest) =
              readFrom ⟨.inQuoted, field ++ [13] ++ [10], fields⟩ rest := rfl
          rw [hpair, hnewline]
        · have hsplit : splitLines [] (13 :: c :: rest) = [13] :: splitLines [] (c :: rest) := by
            rw [splitLines.eq_def]
            split <;> simp_all
          unfold readFrom
          rw [hsplit]
          rfl
    · exact readFrom_byte ⟨h10, h13⟩ hrest hbyte

/-- The bytes between quotes. -/
theorem readFrom_doubled (field text rest : Bytes) :
    readFrom ⟨.inQuoted, field, fields⟩ (text.flatMap doubled ++ 34 :: rest) =
      readFrom ⟨.inQuoted, field ++ text, fields⟩ (34 :: rest) := by
  induction text generalizing field with
  | nil => simp
  | cons b more ih =>
    have hnext : more.flatMap doubled ++ 34 :: rest ≠ [] := by simp
    have hread : readFrom ⟨.inQuoted, field, fields⟩
        (doubled b ++ (more.flatMap doubled ++ 34 :: rest)) =
          readFrom ⟨.inQuoted, field ++ [b], fields⟩ (more.flatMap doubled ++ 34 :: rest) := by
      by_cases hb : b = 34
      · subst hb
        have hopen : readFrom ⟨.inQuoted, field, fields⟩
            (34 :: 34 :: (more.flatMap doubled ++ 34 :: rest)) =
              readFrom ⟨.quoteInQuoted, field, fields⟩
                (34 :: (more.flatMap doubled ++ 34 :: rest)) :=
          readFrom_byte (by decide) (by simp) rfl
        exact hopen.trans (readFrom_byte (by decide) hnext rfl)
      · rw [doubled, if_neg hb]
        exact readFrom_inQuoted hb hnext
    rw [List.flatMap_cons, List.append_assoc, hread, ih, List.append_assoc]
    rfl

/-- A field of bytes that stand for themselves. -/
theorem readFrom_inField (h : PlainField text) (hrest : rest ≠ []) :
    readFrom ⟨.inField, field, fields⟩ (text ++ rest) =
      readFrom ⟨.inField, field ++ text, fields⟩ rest := by
  induction text generalizing field with
  | nil => simp
  | cons b more ih =>
    obtain ⟨hb, hmore⟩ := List.forall_mem_cons.mp h
    rw [List.cons_append, readFrom_byte hb.2.2 (by simp [hrest]) (byte_inField hb), ih hmore,
      List.append_assoc]
    rfl

end Lines

section Fields

variable {reader : Reader} {field rest : Bytes} {fields record : List Bytes}

theorem isSpecial_eq_false {b : UInt8} (h : isSpecial b = false) :
    b ≠ 44 ∧ b ≠ 34 ∧ b ≠ 10 ∧ b ≠ 13 := by
  simp only [isSpecial, decide_eq_false_iff_not, not_or] at h
  exact ⟨h.1, h.2.1, h.2.2.2, h.2.2.1⟩

/-- A field with a text: it is held, and only its end is missing. -/
theorem readFrom_fieldText (hfresh : Fresh reader fields) (hne : field ≠ [])
    (hrest : rest ≠ []) :
    ∃ state, (state = .inField ∨ state = .quoteInQuoted) ∧
      readFrom reader (fieldText field ++ rest) = readFrom ⟨state, field, fields⟩ rest := by
  obtain ⟨hfield, hfields, -⟩ := id hfresh
  unfold fieldText
  by_cases hspecial : field.any isSpecial = true
  · have hopen : reader.first 34 = ⟨.inQuoted, [], fields⟩ := by
      simp [Reader.first, isNewline, ← hfield, ← hfields]
    have hbyte : reader.byte 34 = some ⟨.inQuoted, [], fields⟩ := by
      rw [byte_fresh hfresh (by decide), hopen]
    refine ⟨.quoteInQuoted, .inr rfl, ?_⟩
    rw [if_pos hspecial, List.cons_append, readFrom_byte (by decide) (by simp) hbyte,
      List.append_assoc]
    change readFrom _ (field.flatMap doubled ++ 34 :: rest) = _
    rw [readFrom_doubled, List.nil_append]
    exact readFrom_byte (by decide) hrest rfl
  · have hplain : PlainField field := by
      intro b hb
      refine isSpecial_eq_false (Bool.eq_false_iff.mpr fun hb' => hspecial ?_)
      exact List.any_eq_true.mpr ⟨b, hb, hb'⟩
    refine ⟨.inField, .inl rfl, ?_⟩
    rw [if_neg hspecial]
    cases field with
    | nil => exact absurd rfl hne
    | cons b more =>
      obtain ⟨hb, hmore⟩ := List.forall_mem_cons.mp hplain
      have hfirst : reader.byte b = some ⟨.inField, [b], fields⟩ := by
        rw [byte_fresh hfresh (not_newline hb)]
        simp [Reader.first, not_newline hb, hb.1, hb.2.1, Reader.add, hfield, hfields]
      rw [List.cons_append, readFrom_byte hb.2.2 (by simp [hrest]) hfirst,
        readFrom_inField hmore hrest]
      rfl

/-- A line ending of the writer, where the reader takes it for the end of a record. -/
theorem readFrom_newline (hline : reader.line [13, 10] = some ⟨.startRecord, [], fields⟩) :
    readFrom reader (13 :: 10 :: rest) = (readFrom {} rest).map (fields :: ·) := by
  have hsplit : splitLines [] (13 :: 10 :: rest) = [13, 10] :: splitLines [] rest := rfl
  unfold readFrom
  rw [hsplit, recordsFrom, hline]
  simp only [Option.bind_eq_bind, Option.bind_some, if_true]
  cases recordsFrom {} (splitLines [] rest) with
  | none => rfl
  | some records => rfl

theorem readFrom_comma (hfresh : Fresh reader fields) (hrest : rest ≠ []) :
    readFrom reader (fieldText field ++ 44 :: rest) =
      readFrom ⟨.startField, [], fields ++ [field]⟩ rest := by
  by_cases hne : field = []
  · subst hne
    obtain ⟨hfield, hfields, -⟩ := id hfresh
    have hbyte : reader.byte 44 = some ⟨.startField, [], fields ++ [[]]⟩ := by
      rw [byte_fresh hfresh (by decide)]
      simp [Reader.first, isNewline, Reader.save, hfield, hfields]
    exact readFrom_byte (by decide) hrest hbyte
  · obtain ⟨state, hstate, hread⟩ :=
      @readFrom_fieldText reader field (44 :: rest) fields hfresh hne (by simp)
    rw [hread]
    rcases hstate with rfl | rfl
    · exact readFrom_byte (by decide) hrest rfl
    · exact readFrom_byte (by decide) hrest rfl

/-- The last field of a line, where it is not the only one or not empty. -/
theorem readFrom_lineEnd (hfresh : Fresh reader fields)
    (hnot : reader.state = .startField ∨ field ≠ []) :
    readFrom reader (fieldText field ++ 13 :: 10 :: rest) =
      (readFrom {} rest).map ((fields ++ [field]) :: ·) := by
  by_cases hne : field = []
  · subst hne
    obtain ⟨state, text, texts⟩ := reader
    obtain ⟨rfl, rfl, -⟩ := hfresh
    obtain rfl : state = .startField := hnot.resolve_right fun hne => hne rfl
    exact readFrom_newline rfl
  · obtain ⟨state, hstate, hread⟩ :=
      @readFrom_fieldText reader field (13 :: 10 :: rest) fields hfresh hne (by simp)
    rw [hread]
    rcases hstate with rfl | rfl
    · exact readFrom_newline rfl
    · exact readFrom_newline rfl

/-- The fields of a line behind those read before. -/
theorem readFrom_record (hfresh : Fresh reader fields) (hne : record ≠ [])
    (hnot : reader.state = .startField ∨ record ≠ [[]]) :
    readFrom reader ([44].intercalate (record.map fieldText) ++ 13 :: 10 :: rest) =
      (readFrom {} rest).map ((fields ++ record) :: ·) := by
  induction record generalizing reader fields with
  | nil => exact absurd rfl hne
  | cons field more ih =>
    cases more with
    | nil =>
      rw [List.map_singleton, List.intercalate_singleton]
      exact readFrom_lineEnd hfresh (hnot.imp id fun hne heq => hne (by rw [heq]))
    | cons next more =>
      have htext : [44].intercalate ((field :: next :: more).map fieldText) ++ 13 :: 10 :: rest =
          fieldText field ++ 44 ::
            ([44].intercalate ((next :: more).map fieldText) ++ 13 :: 10 :: rest) := by
        simp [List.intercalate_cons_cons]
      have hafter : Fresh ⟨.startField, [], fields ++ [field]⟩ (fields ++ [field]) :=
        ⟨rfl, rfl, .inr rfl⟩
      rw [htext, readFrom_comma hfresh (by simp), ih hafter (List.cons_ne_nil _ _) (.inl rfl),
        List.append_assoc]
      rfl

end Fields

section RoundTrip

variable {record : List Bytes}

/-- A line is read back as the record it was written from, empty fields and all. -/
theorem readFrom_lineText (record : List Bytes) (rest : Bytes) :
    readFrom {} (lineText record ++ rest) = (readFrom {} rest).map (record :: ·) := by
  have hfresh : Fresh {} [] := ⟨rfl, rfl, .inl rfl⟩
  unfold lineText
  by_cases hempty : record = []
  · subst hempty
    exact readFrom_newline rfl
  · by_cases hsingle : record = [[]]
    · subst hsingle
      have hquotes : readFrom {} (34 :: 34 :: 13 :: 10 :: rest) =
          readFrom ⟨.quoteInQuoted, [], []⟩ (13 :: 10 :: rest) :=
        (readFrom_byte (by decide) (by simp) rfl).trans
          (readFrom_byte (by decide) (by simp) rfl)
      exact hquotes.trans (readFrom_newline rfl)
    · rw [if_neg hsingle, List.append_assoc]
      exact readFrom_record hfresh hempty (.inr hsingle)

/-- Whatever the records are, the reader gets them back from the writer's text. -/
theorem readRecords_tableText (records : List (List Bytes)) :
    readRecords (tableText records) = some records := by
  change readFrom {} (tableText records) = some records
  induction records with
  | nil => rfl
  | cons record rest ih =>
    change readFrom {} (lineText record ++ tableText rest) = _
    rw [readFrom_lineText, ih]
    rfl

/-- So a text tells the records. -/
theorem tableText_injective {records records' : List (List Bytes)}
    (h : tableText records = tableText records') : records = records' := by
  have hread := readRecords_tableText records
  rw [h, readRecords_tableText] at hread
  exact (Option.some.inj hread).symm

theorem readTable_tableText {header : List Bytes} {records : List (List Bytes)}
    (h : ∀ record ∈ records, record ≠ []) :
    readTable (tableText (header :: records)) = some { header, records } := by
  have hkept : records.filter (· ≠ []) = records :=
    List.filter_eq_self.mpr fun record hrecord => decide_eq_true (h record hrecord)
  unfold readTable
  rw [readRecords_tableText]
  exact congrArg (fun kept => some (⟨header, kept⟩ : CsvFile)) hkept

end RoundTrip

end ProtobufKafkaBench.CsvWriters
