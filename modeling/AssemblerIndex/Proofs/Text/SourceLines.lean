import Mathlib.Data.List.DropRight
import AssemblerIndex.DataOperand
import AssemblerIndex.Text.SourceText

/-!
# The lines of a source

Statements are read from the records of a source, and all that is recorded of them counts these.  What is shown of the
source, or asked of it at a place, is looked up by line numbers and columns among lines that are cut out of the text.

* `Records s lines` — the records of a text, said without looking for them;
* `lineStarts`, `bytesBetween?` — where lines begin, in bytes, and what stands between two offsets, if these lie between
  characters;
* `lineAt?`, `beginningAt?` — a line and its beginning as they are found by such offsets;
* `lineAt?_eq`, `beginningAt?_eq` — so are the lines and the texts in front of places found, and no offset ever lies
  inside of a character;
* `lines_numbered_alike` — **the line with a number is the record with this number**, without carriage returns at its
  end.
-/

namespace AssemblerIndex

open DataOperand (byteCount byteCount_nil byteCount_cons byteCount_append)

/-! ### Cutting at line feeds -/

/-- A text without a line feed, or a line with its line feed in front of a text: what holds for all such holds for all
texts. -/
@[elab_as_elim] theorem lineInduction {motive : List Char → Prop} (last : ∀ line, '\n' ∉ line → motive line)
    (feed : ∀ line s, '\n' ∉ line → motive s → motive (line ++ '\n' :: s)) (s : List Char) : motive s := by
  induction hn : s.length using Nat.strongRecOn generalizing s with
  | ind n ih =>
    by_cases hs : '\n' ∈ s
    · obtain ⟨line, rest, rfl, hline⟩ := List.eq_append_cons_of_mem hs
      refine feed line rest hline (ih rest.length ?_ rest rfl)
      rw [← hn, List.length_append, List.length_cons]
      omega
    · exact last s hs

section

variable {line : List Char} (h : '\n' ∉ line) (s : List Char)

include h

theorem linePieces_last : linePieces line = [line] := by
  induction line with
  | nil => rfl
  | cons c line ih =>
    obtain ⟨hc, hline⟩ := not_or.1 (mt List.mem_cons.2 h)
    rw [linePieces, if_neg (Ne.symm hc), ih hline]

theorem linePieces_feed : linePieces (line ++ '\n' :: s) = line :: linePieces s := by
  induction line with
  | nil => rw [List.nil_append, linePieces, if_pos rfl]
  | cons c line ih =>
    obtain ⟨hc, hline⟩ := not_or.1 (mt List.mem_cons.2 h)
    rw [List.cons_append, linePieces, if_neg (Ne.symm hc), ih hline]

theorem recordLines_last (hne : line ≠ []) : recordLines line = [line] := by
  simp [recordLines, linePieces_last h, hne]

theorem recordLines_feed : recordLines (line ++ '\n' :: s) = dropReturn line :: recordLines s := by
  obtain ⟨piece, pieces, hs⟩ := List.exists_cons_of_ne_nil (linePieces_ne_nil s)
  simp [recordLines, linePieces_feed h, hs]

end

/-! ### Records -/

/-- The records of a text: each ends with a line feed, or with a carriage return and a line feed, but for the last one
if the text goes on behind its last line feed. -/
inductive Records : List Char → List (List Char) → Prop
  | nil : Records [] []
  | last {line : List Char} (hne : line ≠ []) (h : '\n' ∉ line) : Records line [line]
  | feed {line s : List Char} {lines : List (List Char)} (h : '\n' ∉ line) (hreturn : line.getLast? ≠ some '\r')
      (rest : Records s lines) : Records (line ++ '\n' :: s) (line :: lines)
  | returnFeed {line s : List Char} {lines : List (List Char)} (h : '\n' ∉ line) (rest : Records s lines) :
      Records (line ++ '\r' :: '\n' :: s) (line :: lines)

theorem records_recordLines (s : List Char) : Records s (recordLines s) := by
  induction s using lineInduction with
  | last line h =>
    by_cases hne : line = []
    · subst hne
      exact .nil
    · rw [recordLines_last h hne]
      exact .last hne h
  | feed line s h ih =>
    rw [recordLines_feed h]
    unfold dropReturn
    split
    · next hreturn =>
      obtain ⟨front, rfl⟩ := List.getLast?_eq_some_iff.1 hreturn
      rw [List.dropLast_concat, List.append_assoc]
      exact .returnFeed (fun hfront => h (List.mem_append_left _ hfront)) ih
    · next hreturn => exact .feed h hreturn ih

/-- A text has these records and no others. -/
theorem records_iff {s : List Char} {lines : List (List Char)} : Records s lines ↔ recordLines s = lines := by
  refine ⟨fun h => ?_, fun h => h ▸ records_recordLines s⟩
  induction h with
  | nil => rfl
  | last hne h => exact recordLines_last h hne
  | feed h hreturn _ ih => rw [recordLines_feed h, dropReturn, if_neg hreturn, ih]
  | @returnFeed line s lines h _ ih =>
    have hline : '\n' ∉ line ++ ['\r'] := by simpa using h
    have hrecord := recordLines_feed hline s
    rw [dropReturn, if_pos (List.getLast?_concat ..), List.dropLast_concat, ih, List.append_assoc] at hrecord
    exact hrecord

/-! ### Carriage returns -/

/-- A line that a line feed ends is shown without any carriage return at its end. -/
theorem trimEndWhile_dropReturn (s : List Char) :
    Text.trimEndWhile (· = '\r') (dropReturn s) = Text.trimEndWhile (· = '\r') s := by
  unfold dropReturn
  split
  · next h =>
    obtain ⟨front, rfl⟩ := List.getLast?_eq_some_iff.1 h
    rw [List.dropLast_concat]
    exact (List.rdropWhile_concat_pos _ _ _ (by decide)).symm
  · rfl

/-- A line feed goes with the carriage returns in front of it, and in front of it there is no other. -/
theorem trimEndWhile_feed {line : List Char} (h : '\n' ∉ line) :
    Text.trimEndWhile (fun c => c = '\n' || c = '\r') (line ++ ['\n']) = Text.trimEndWhile (· = '\r') line ∧
      Text.trimEndWhile (fun c => c = '\n' || c = '\r') line = Text.trimEndWhile (· = '\r') line := by
  have hline : Text.trimEndWhile (fun c => c = '\n' || c = '\r') line = Text.trimEndWhile (· = '\r') line := by
    induction line using List.reverseRecOn with
    | nil => rfl
    | append_singleton line c ih =>
      obtain ⟨hline, hc⟩ : '\n' ∉ line ∧ '\n' ≠ c := by simpa using h
      by_cases hreturn : c = '\r'
      · exact (List.rdropWhile_concat_pos _ _ _ (by simp [hreturn])).trans
          ((ih hline).trans (List.rdropWhile_concat_pos _ _ _ (by simp [hreturn])).symm)
      · exact (List.rdropWhile_concat_neg _ _ _ (by simp [hreturn, hc.symm])).trans
          (List.rdropWhile_concat_neg _ _ _ (by simp [hreturn])).symm
  exact ⟨(List.rdropWhile_concat_pos _ _ _ (by decide)).trans hline, hline⟩

/-- Record and piece with the same number differ in carriage returns at their ends; an empty piece behind the last line
feed is no record. -/
theorem trimEndWhile_piece (s : List Char) (row : Nat) :
    Text.trimEndWhile (· = '\r') ((linePieces s)[row]?.getD []) =
      Text.trimEndWhile (· = '\r') ((recordLines s)[row]?.getD []) := by
  induction s using lineInduction generalizing row with
  | last line h =>
    rw [linePieces_last h]
    by_cases hne : line = []
    · subst hne
      cases row <;> rfl
    · rw [recordLines_last h hne]
  | feed line s h ih =>
    rw [linePieces_feed h, recordLines_feed h]
    cases row with
    | zero => exact (trimEndWhile_dropReturn line).symm
    | succ row => exact ih row

theorem length_recordLines_le (s : List Char) : (recordLines s).length ≤ (linePieces s).length := by
  induction s using lineInduction with
  | last line h =>
    rw [linePieces_last h]
    by_cases hne : line = []
    · subst hne
      exact Nat.zero_le _
    · rw [recordLines_last h hne]
  | feed line s h ih =>
    rw [linePieces_feed h, recordLines_feed h]
    exact Nat.succ_le_succ ih

theorem line_eq_trim_piece (text : String) (row : Nat) :
    (SourceText.ofString text).line row = Text.trimEndWhile (· = '\r') ((linePieces text.toList)[row]?.getD []) := by
  simp only [SourceText.ofString, SourceText.line, List.getElem?_toArray, List.getElem?_map]
  cases (linePieces text.toList)[row]? <;> rfl

/-- The line with a number is the record with this number, without carriage returns at its end. -/
theorem line_eq_trim_record (text : String) (row : Nat) :
    (SourceText.ofString text).line row = Text.trimEndWhile (· = '\r') ((recordLines text.toList)[row]?.getD []) := by
  rw [line_eq_trim_piece, trimEndWhile_piece]

/-! ### Offsets -/

/-- The characters with their offsets in bytes, the first one at `start`. -/
def offsets (start : Nat) : List Char → List (Nat × Char)
  | [] => []
  | c :: s => (start, c) :: offsets (start + c.utf8Size) s

/-- The offset behind a line feed. -/
def behindFeed? (x : Nat × Char) : Option Nat := if x.2 = '\n' then some (x.1 + 1) else none

/-- The offsets of the lines: the front, and the places behind line feeds. -/
def lineStarts (s : List Char) : List Nat := 0 :: (offsets 0 s).filterMap behindFeed?

/-- Cuts a text behind a number of bytes, unless it ends before, or in the midst of a character. -/
def splitBytes? : Nat → List Char → Option (List Char × List Char)
  | 0, s => some ([], s)
  | _ + 1, [] => none
  | n + 1, c :: s =>
    if c.utf8Size ≤ n + 1 then (splitBytes? (n + 1 - c.utf8Size) s).map fun x => (c :: x.1, x.2) else none

/-- The text between two offsets, unless they are in the wrong order or one of them is no place between characters. -/
def bytesBetween? (start stop : Nat) (s : List Char) : Option (List Char) :=
  if start ≤ stop then (splitBytes? stop s).bind fun x => (splitBytes? start x.1).map Prod.snd else none

/-- The line with a number, cut out by its offset and that of the next line; `none` if the offsets are wrong. -/
def lineAt? (s : List Char) (row : Nat) : Option (List Char) :=
  match (lineStarts s)[row]? with
  | none => some []
  | some start =>
    (bytesBetween? start ((lineStarts s)[row + 1]?.getD (byteCount s)) s).map
      (Text.trimEndWhile fun c => c = '\n' || c = '\r')

/-- A line up to a column, cut out by the offset of the character there; `none` if the offset is wrong. -/
def beginningAt? (line : List Char) (column : Nat) : Option (List Char) :=
  match (offsets 0 line)[column]? with
  | none => some line
  | some (offset, _) => bytesBetween? 0 offset line

theorem offsets_add (k start : Nat) (s : List Char) :
    offsets (k + start) s = (offsets start s).map fun x => (k + x.1, x.2) := by
  induction s generalizing start with
  | nil => rfl
  | cons c s ih => rw [offsets, offsets, Nat.add_assoc, ih, List.map_cons]

theorem offsets_append (start : Nat) (a s : List Char) :
    offsets start (a ++ s) = offsets start a ++ offsets (start + byteCount a) s := by
  induction a generalizing start with
  | nil => rfl
  | cons c a ih => rw [List.cons_append, offsets, offsets, ih, byteCount_cons, Nat.add_assoc, List.cons_append]

theorem getElem?_offsets (start i : Nat) (s : List Char) :
    (offsets start s)[i]? = s[i]?.map fun c => (start + byteCount (s.take i), c) := by
  induction s generalizing start i with
  | nil => rfl
  | cons c s ih =>
    cases i with
    | zero => rfl
    | succ i =>
      rw [offsets, List.getElem?_cons_succ, List.getElem?_cons_succ, ih, List.take_succ_cons, byteCount_cons]
      simp only [Nat.add_assoc]

@[simp] theorem splitBytes?_zero (s : List Char) : splitBytes? 0 s = some ([], s) := by rw [splitBytes?]

theorem splitBytes?_cons {c : Char} {n : Nat} (h : c.utf8Size ≤ n) (s : List Char) :
    splitBytes? n (c :: s) = (splitBytes? (n - c.utf8Size) s).map fun x => (c :: x.1, x.2) := by
  cases n with
  | zero => exact absurd c.utf8Size_pos (Nat.not_lt.2 h)
  | succ n => rw [splitBytes?, if_pos h]

theorem splitBytes?_append (n : Nat) (a s : List Char) :
    splitBytes? (byteCount a + n) (a ++ s) = (splitBytes? n s).map fun x => (a ++ x.1, x.2) := by
  induction a with
  | nil => simp
  | cons c a ih =>
    have hbehind : c.utf8Size + (byteCount a + n) - c.utf8Size = byteCount a + n := Nat.add_sub_cancel_left ..
    rw [byteCount_cons, List.cons_append, Nat.add_assoc, splitBytes?_cons (Nat.le_add_right ..), hbehind, ih,
      Option.map_map]
    rfl

/-- A text in front of another moves all offsets. -/
theorem bytesBetween?_append (start stop : Nat) (a s : List Char) :
    bytesBetween? (byteCount a + start) (byteCount a + stop) (a ++ s) = bytesBetween? start stop s := by
  simp only [bytesBetween?, splitBytes?_append, Nat.add_le_add_iff_left]
  cases splitBytes? stop s with
  | none => rfl
  | some x => simp [splitBytes?_append, Option.map_map, Function.comp_def]

/-- The offset behind a text cuts it off. -/
theorem bytesBetween?_front (a s : List Char) : bytesBetween? 0 (byteCount a) (a ++ s) = some a := by
  have hsplit := splitBytes?_append 0 a s
  rw [Nat.add_zero, splitBytes?_zero] at hsplit
  simp [bytesBetween?, hsplit]

/-! ### Lines and their beginnings -/

section

variable {line : List Char} (h : '\n' ∉ line)

include h

theorem filterMap_behindFeed? (start : Nat) : (offsets start line).filterMap behindFeed? = [] := by
  rw [List.filterMap_eq_nil_iff]
  intro x hx
  obtain ⟨i, hi⟩ := List.mem_iff_getElem?.1 hx
  rw [getElem?_offsets, Option.map_eq_some_iff] at hi
  obtain ⟨c, hc, rfl⟩ := hi
  refine if_neg ?_
  rintro rfl
  exact h (List.mem_of_getElem? hc)

theorem lineStarts_last : lineStarts line = [0] := by rw [lineStarts, filterMap_behindFeed? h]

/-- Behind a line feed the lines begin where they do without the text in front of them, only further on. -/
theorem lineStarts_feed (s : List Char) :
    lineStarts (line ++ '\n' :: s) = 0 :: (lineStarts s).map (byteCount (line ++ ['\n']) + ·) := by
  have hoffsets : offsets 0 (line ++ '\n' :: s) =
      offsets 0 line ++ (byteCount line, '\n') :: offsets (byteCount (line ++ ['\n']) + 0) s := by
    rw [offsets_append, offsets, byteCount_append, Nat.zero_add]
    rfl
  have hfeed : behindFeed? (byteCount line, '\n') = some (byteCount (line ++ ['\n'])) := by
    rw [byteCount_append]
    rfl
  have hmoved : behindFeed? ∘ (fun x => (byteCount (line ++ ['\n']) + x.1, x.2)) =
      fun x => (behindFeed? x).map (byteCount (line ++ ['\n']) + ·) := by
    funext x
    simp only [behindFeed?, Function.comp_apply]
    split <;> rfl
  rw [lineStarts, hoffsets, List.filterMap_append, filterMap_behindFeed? h, List.nil_append, List.filterMap_cons, hfeed,
    offsets_add, List.filterMap_map, hmoved, ← List.map_filterMap, lineStarts, List.map_cons, Nat.add_zero]

end

/-- Every line is cut out where it stands. -/
theorem lineAt?_eq (s : List Char) (row : Nat) :
    lineAt? s row = some (Text.trimEndWhile (· = '\r') ((linePieces s)[row]?.getD [])) := by
  induction s using lineInduction generalizing row with
  | last line h =>
    rw [lineAt?, lineStarts_last h, linePieces_last h]
    cases row with
    | zero =>
      have hline := bytesBetween?_front line []
      rw [List.append_nil] at hline
      simp [hline, (trimEndWhile_feed h).2]
    | succ row => rfl
  | feed line s h ih =>
    have hsplit : line ++ '\n' :: s = (line ++ ['\n']) ++ s := by simp
    rw [linePieces_feed h]
    cases row with
    | zero =>
      have hline := bytesBetween?_front (line ++ ['\n']) s
      rw [← hsplit] at hline
      have hnext : (lineStarts s)[0]? = some 0 := rfl
      simp [lineAt?, lineStarts_feed h, hnext, hline, (trimEndWhile_feed h).1]
    | succ row =>
      rw [List.getElem?_cons_succ, ← ih row, lineAt?, lineAt?, lineStarts_feed h, List.getElem?_cons_succ,
        List.getElem?_cons_succ, List.getElem?_map, List.getElem?_map]
      cases (lineStarts s)[row]? with
      | none => rfl
      | some start =>
        have hstop :
            ((lineStarts s)[row + 1]?.map (byteCount (line ++ ['\n']) + ·)).getD (byteCount (line ++ '\n' :: s)) =
              byteCount (line ++ ['\n']) + (lineStarts s)[row + 1]?.getD (byteCount s) := by
          rw [hsplit]
          cases (lineStarts s)[row + 1]? with
          | none => exact byteCount_append ..
          | some next => rfl
        rw [hstop, hsplit]
        exact congrArg (Option.map _) (bytesBetween?_append ..)

theorem beginningAt?_eq (s : List Char) (column : Nat) : beginningAt? s column = some (s.take column) := by
  unfold beginningAt?
  rw [getElem?_offsets]
  cases hc : s[column]? with
  | none => rw [Option.map_none, List.take_of_length_le (List.getElem?_eq_none_iff.1 hc)]
  | some c =>
    have hslice := bytesBetween?_front (s.take column) (s.drop column)
    rw [List.take_append_drop] at hslice
    simpa using hslice

/-! ### Records and lines -/

/-- **The line with a number is the record with this number**, without carriage returns at its end, and nothing stands
in the lines behind the last record.  The line is what the text holds between the offsets of two lines, and what stands in
front of a place in it is what it holds in front of an offset; columns count characters. -/
theorem lines_numbered_alike (text : String) :
    let records := recordLines text.toList
    let source := SourceText.ofString text
    (∀ lines, Records text.toList lines ↔ records = lines) ∧
      (∀ row, lineAt? text.toList row = some (source.line row)) ∧
      (∀ row (h : row < records.length), source.line row = Text.trimEndWhile (· = '\r') records[row]) ∧
      (∀ row, records.length ≤ row → source.line row = []) ∧
      ∀ row column, beginningAt? (source.line row) column = some (source.lineBefore ⟨row, column⟩) ∧
        source.lineBefore ⟨row, column⟩ = (source.line row).take (min column (source.line row).length) := by
  intro records source
  refine ⟨fun lines => records_iff, fun row => ?_, fun row h => ?_, fun row h => ?_, fun row column => ⟨?_, ?_⟩⟩
  · rw [line_eq_trim_piece, lineAt?_eq]
  · rw [line_eq_trim_record, List.getElem?_eq_getElem h, Option.getD_some]
  · rw [line_eq_trim_record, List.getElem?_eq_none h]
    rfl
  · exact beginningAt?_eq _ column
  · exact List.take_eq_take_min

/-- Characters of several bytes, two carriage returns in front of a line feed, one in the midst of a line, an empty
line, and a carriage return at the end of the text. -/
theorem lines_numbered_alike_of_mixed_endings :
    let text := "é1\r\r\n\n€\r2\n3\r"
    let source := SourceText.ofString text
    recordLines text.toList = ["é1\r".toList, [], "€\r2".toList, "3\r".toList] ∧
      source.line 0 = "é1".toList ∧ source.line 3 = ['3'] ∧ source.line 4 = [] ∧
      lineStarts text.toList = [0, 6, 7, 13] ∧ beginningAt? (source.line 2) 1 = some ['€'] := by
  intro text source
  obtain ⟨-, -, hline, hbehind, hbeginning⟩ := lines_numbered_alike text
  have hrecords : recordLines text.toList = ["é1\r".toList, [], "€\r2".toList, "3\r".toList] := by decide +kernel
  have hlength : (recordLines text.toList).length = 4 := by rw [hrecords]; rfl
  refine ⟨hrecords, ?_, ?_, hbehind 4 (Nat.le_of_eq hlength), by decide +kernel, ?_⟩
  · rw [hline 0 (by omega)]
    simp only [hrecords, List.getElem_cons_zero]
    decide +kernel
  · rw [hline 3 (by omega)]
    simp only [hrecords, List.getElem_cons_succ, List.getElem_cons_zero]
    decide +kernel
  · rw [(hbeginning 2 1).1]
    decide +kernel

end AssemblerIndex
