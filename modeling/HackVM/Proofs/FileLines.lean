import HackVM.Disk
import HackVM.Proofs.LineFaults
import HackVM.Proofs.NormalLines

/-! Lines of a file.

A file is cut into lines as bytes, a text as characters. A byte below 128 stands for the character
of its number and is no part of any other (`toNat_of_mem_utf8EncodeChar`), so that cutting at line
feeds commutes with encoding (`Text.splitLines_encode`). -/

namespace HackVM

/-! ## Cutting a list whose elements are spelled out -/

/-- Spelled out by `spell`, the mark `a` becomes the mark `b`, which is no part of anything else. -/
structure Marks (spell : α → List β) (a : α) (b : β) : Prop where
  mark : spell a = [b]
  other : b ∈ spell x → x = a
  nonempty : spell x ≠ []

theorem flatMap_intercalate (spell : α → List β) (sep : List α) (pieces : List (List α)) :
    (sep.intercalate pieces).flatMap spell =
      (sep.flatMap spell).intercalate (pieces.map (·.flatMap spell)) := by
  induction pieces with
  | nil => rfl
  | cons piece pieces ih =>
    cases pieces with
    | nil => simp
    | cons piece' pieces =>
      rw [List.intercalate_cons_cons, List.flatMap_append, List.flatMap_append, ih]
      simp only [List.map_cons, List.intercalate_cons_cons]

namespace Marks
variable {spell : α → List β} {a : α} {b : β} [BEq α] [LawfulBEq α] [BEq β] [LawfulBEq β]

theorem splitOn_flatMap (h : Marks spell a b) (xs : List α) :
    (xs.flatMap spell).splitOn b = (xs.splitOn a).map (·.flatMap spell) := by
  have hwhole : xs.flatMap spell = [b].intercalate ((xs.splitOn a).map (·.flatMap spell)) := by
    have hxs : [a].intercalate (xs.splitOn a) = xs := List.intercalate_splitOn a
    calc xs.flatMap spell = ([a].intercalate (xs.splitOn a)).flatMap spell := by rw [hxs]
      _ = [b].intercalate ((xs.splitOn a).map (·.flatMap spell)) := by
        rw [flatMap_intercalate, List.flatMap_singleton, h.mark]
  rw [hwhole, List.splitOn_intercalate]
  · intro bytes hbytes hb
    obtain ⟨piece, hpiece, rfl⟩ := List.mem_map.mp hbytes
    obtain ⟨x, hx, hb⟩ := List.mem_flatMap.mp hb
    have hxa := eq_false_of_mem_splitOnP hpiece x hx
    rw [h.other hb] at hxa
    simp at hxa
  · simp

theorem dropTrailing_flatMap (h : Marks spell a b) (xs : List α) :
    Text.dropTrailing b (xs.flatMap spell) = (Text.dropTrailing a xs).flatMap spell := by
  rcases List.eq_nil_or_concat' xs with rfl | ⟨front, x, rfl⟩
  · rfl
  · have hlast : ((front ++ [x]).flatMap spell).getLast? = (spell x).getLast? := by
      rw [List.flatMap_append, List.flatMap_singleton, List.getLast?_append_of_ne_nil _ h.nonempty]
    by_cases hx : x = a
    · subst hx
      simp [Text.dropTrailing, h.mark]
    · have hne : (spell x).getLast? ≠ some b := fun heq => hx (h.other (List.mem_of_getLast? heq))
      rw [Text.dropTrailing, Text.dropTrailing, if_neg (by rwa [hlast, beq_iff_eq]),
        if_neg (by simpa using hx)]

theorem endLines_flatMap {cr : α} {cr' : β} (h : Marks spell cr cr') (pieces : List (List α)) :
    Text.endLines cr' (pieces.map (·.flatMap spell)) =
      (Text.endLines cr pieces).map (·.flatMap spell) := by
  induction pieces with
  | nil => rfl
  | cons piece pieces ih =>
    cases pieces with
    | nil =>
      cases piece with
      | nil => rfl
      | cons x xs => simp [Text.endLines, h.nonempty]
    | cons piece' pieces =>
      calc Text.endLines cr' ((piece :: piece' :: pieces).map (·.flatMap spell))
          = Text.dropTrailing cr' (piece.flatMap spell) ::
              Text.endLines cr' ((piece' :: pieces).map (·.flatMap spell)) := rfl
        _ = (Text.dropTrailing cr piece).flatMap spell ::
              (Text.endLines cr (piece' :: pieces)).map (·.flatMap spell) := by
            rw [h.dropTrailing_flatMap, ih]
        _ = (Text.endLines cr (piece :: piece' :: pieces)).map (·.flatMap spell) := rfl

/-- Lines are cut before or after the elements are spelled out. -/
theorem splitLines_flatMap {lf cr : α} {lf' cr' : β} (hlf : Marks spell lf lf')
    (hcr : Marks spell cr cr') (xs : List α) :
    Text.splitLines lf' cr' (xs.flatMap spell) =
      (Text.splitLines lf cr xs).map (·.flatMap spell) := by
  rw [Text.splitLines, hlf.splitOn_flatMap, hcr.endLines_flatMap]
  rfl

end Marks

/-! ## Bytes of a text -/

/-- A byte below 128 is the whole of a character. -/
theorem toNat_of_mem_utf8EncodeChar {c : Char} {b : UInt8} (h : b ∈ String.utf8EncodeChar c)
    (hb : b.toNat < 128) : c.toNat = b.toNat := by
  revert h
  fun_cases String.utf8EncodeChar c with
  | case1 v hv =>
    rw [List.mem_singleton]
    rintro rfl
    rw [UInt8.toNat_ofNat', Nat.mod_eq_of_lt (by omega)]
    rfl
  | case2 | case3 | case4 =>
    -- the bytes of a longer encoding carry an offset of at least 128
    intro h
    have hoffset : 128 ≤ b.toNat := by
      fin_cases h <;> simp only [UInt8.toNat_ofNat'] <;> omega
    omega

theorem marks_lf : Marks String.utf8EncodeChar '\n' 10 where
  mark := rfl
  other h := Char.toNat_inj.mp (toNat_of_mem_utf8EncodeChar h (by decide))
  nonempty := String.utf8EncodeChar_ne_nil

theorem marks_cr : Marks String.utf8EncodeChar '\r' 13 where
  mark := rfl
  other h := Char.toNat_inj.mp (toNat_of_mem_utf8EncodeChar h (by decide))
  nonempty := String.utf8EncodeChar_ne_nil

namespace Text

theorem toByteArray_encode (text : String) : (encode text).toByteArray = text.toByteArray :=
  String.utf8Encode_toList

theorem decode?_eq_some {bytes : Bytes} {text : String} :
    decode? bytes = some text ↔ bytes = encode text := by
  constructor
  · intro h
    rw [decode?, String.fromUTF8?] at h
    split at h
    · cases h
      rw [← List.toByteArray_inj, toByteArray_encode]
      rfl
    · cases h
  · rintro rfl
    rw [decode?, toByteArray_encode, String.fromUTF8?, dif_pos text.isValidUTF8]
    rfl

/-- The bytes are no text. -/
def Undecodable (bytes : Bytes) : Prop :=
  ∀ text, bytes ≠ encode text

theorem decode?_eq_none {bytes : Bytes} : decode? bytes = none ↔ Undecodable bytes := by
  rw [Option.eq_none_iff_forall_ne_some]
  exact forall_congr' fun text => not_congr decode?_eq_some

theorem encode_append (front rear : String) :
    encode (front ++ rear) = encode front ++ encode rear := by
  simp [encode]

theorem encode_joinLines (ls : List String) :
    encode (joinLines ls) = [10].intercalate (ls.map encode) := by
  rw [encode, joinLines, String.toList_intercalate, flatMap_intercalate, List.map_map]
  rfl

theorem splitLines_encode (text : String) :
    splitLines 10 13 (encode text) = (lines text).map encode := by
  rw [encode, marks_lf.splitLines_flatMap marks_cr, lines, List.map_map]
  refine List.map_congr_left fun line _ => ?_
  rw [Function.comp_apply, encode, String.toList_ofList]

end Text

theorem decodeLine_encode (text : String) : Disk.decodeLine (Text.encode text) = .ok text := by
  rw [Disk.decodeLine, Text.decode?_eq_some.mpr rfl]

theorem Text.Undecodable.decodeLine {bytes : Bytes} (h : Text.Undecodable bytes) :
    Disk.decodeLine bytes = .error .notText := by
  rw [Disk.decodeLine, Text.decode?_eq_none.mpr h]

/-- A file that holds a text has the lines of the text. -/
theorem fileLines_encode (text : String) :
    Disk.fileLines (Text.encode text) = (Text.lines text).map .ok := by
  rw [Disk.fileLines, Text.splitLines_encode, List.map_map]
  exact List.map_congr_left fun line _ => decodeLine_encode line

/-! ## Files that hold no text -/

namespace Text

/-- A line as it is read if a line feed ends it. -/
def endLine (piece : String) : String :=
  String.ofList (dropTrailing '\r' piece.toList)

theorem dropTrailing_encode (piece : String) :
    dropTrailing 13 (encode piece) = encode (endLine piece) := by
  rw [encode, marks_cr.dropTrailing_flatMap, encode, endLine, String.toList_ofList]

theorem Undecodable.dropTrailing {bytes : Bytes} (h : Undecodable bytes) :
    Undecodable (dropTrailing 13 bytes) := by
  intro text htext
  rw [Text.dropTrailing] at htext
  split at htext
  · rename_i hlast
    -- with its carriage return the line would be a text too
    refine h (text ++ "\r") ?_
    rw [encode_append, ← htext]
    exact (List.dropLast_append_getLast? _ (beq_iff_eq.mp hlast)).symm
  · exact h text htext

theorem Undecodable.ne_nil {bytes : Bytes} (h : Undecodable bytes) : bytes ≠ [] := by
  rintro rfl
  exact h "" rfl

theorem endLines_append [BEq α] (cr : α) (front : List (List α)) {rest : List (List α)}
    (h : rest ≠ []) :
    endLines cr (front ++ rest) = front.map (Text.dropTrailing cr) ++ endLines cr rest := by
  induction front with
  | nil => rfl
  | cons piece front ih =>
    rw [List.cons_append, endLines_cons _ _ (List.append_ne_nil_of_right_ne_nil _ h), ih]
    rfl

/-- The first piece that is no text, unless all of them are. -/
theorem texts_or_undecodable (pieces : List Bytes) :
    (∃ texts : List String, pieces = texts.map encode) ∨
      ∃ (front : List String) (bad : Bytes) (rear : List Bytes),
        pieces = front.map encode ++ bad :: rear ∧ Undecodable bad := by
  induction pieces with
  | nil => exact .inl ⟨[], rfl⟩
  | cons piece pieces ih =>
    by_cases hpiece : Undecodable piece
    · exact .inr ⟨[], piece, pieces, rfl, hpiece⟩
    · obtain ⟨text, rfl⟩ : ∃ text, piece = encode text := by simpa [Undecodable] using hpiece
      rcases ih with ⟨texts, rfl⟩ | ⟨front, bad, rear, rfl, hbad⟩
      · exact .inl ⟨text :: texts, rfl⟩
      · exact .inr ⟨text :: front, bad, rear, rfl, hbad⟩

/-- Of the pieces between line feeds, the first that is no text comes right behind `front`. -/
def BreaksAfter (bytes : Bytes) (front : List String) : Prop :=
  ∃ (bad : Bytes) (rear : List Bytes),
    bytes.splitOn 10 = front.map encode ++ bad :: rear ∧ Undecodable bad

theorem Undecodable.exists_breaksAfter {bytes : Bytes} (h : Undecodable bytes) :
    ∃ front, BreaksAfter bytes front := by
  rcases texts_or_undecodable (bytes.splitOn 10) with ⟨texts, htexts⟩ | ⟨front, hfront⟩
  · refine absurd ?_ (h (joinLines texts))
    rw [encode_joinLines, ← htexts, List.intercalate_splitOn]
  · exact ⟨front, hfront⟩

end Text

/-- Lines before the first one that is no text are read. -/
theorem Text.BreaksAfter.fileLines {bytes : Bytes} {front : List String}
    (h : Text.BreaksAfter bytes front) :
    ∃ rest, Disk.fileLines bytes =
      (front.map Text.endLine).map .ok ++ .error .notText :: rest := by
  obtain ⟨bad, rear, hsplit, hbad⟩ := h
  have hfront : (front.map Text.encode).map (Text.dropTrailing 13) =
      (front.map Text.endLine).map Text.encode := by
    simp only [List.map_map, Function.comp_def, Text.dropTrailing_encode]
  have hdecode : ((front.map Text.endLine).map Text.encode).map Disk.decodeLine =
      (front.map Text.endLine).map .ok := by
    simp only [List.map_map, Function.comp_def, decodeLine_encode]
  rw [Disk.fileLines, Text.splitLines, hsplit, Text.endLines_append _ _ (by simp), hfront,
    List.map_append, hdecode]
  cases rear with
  | nil =>
    rw [Text.endLines, if_neg (by simpa using hbad.ne_nil), List.map_singleton, hbad.decodeLine]
    exact ⟨[], rfl⟩
  | cons piece rear =>
    rw [Text.endLines_cons _ _ (by simp), List.map_cons, hbad.dropTrailing.decodeLine]
    exact ⟨_, rfl⟩

/-! ## Modules in files -/

theorem ofDirectory_eq_ok {disk : Disk} {root : Path} {location : Location} {bytes : Bytes}
    (h : disk.lookup (root.join (moduleFile name)) = .ok (location, .file bytes)) :
    Source.ofDirectory disk root name = .ok (Disk.fileLines bytes) := by
  rw [Source.ofDirectory, Disk.readLines, h]
  rfl

theorem Source.ofMemory_eq_ok {memory : Memory} (h : memory.lookup name = some text) :
    Source.ofMemory memory name = .ok ((Text.lines text).map .ok) := by
  rw [Source.ofMemory, h]

theorem Program.add_congr (p : Program) {source source' : Source} (h : source name = source' name) :
    p.add source name = p.add source' name := by
  rw [Program.add, Program.add, h]

/-- A module that opens in a namespace of its own comes to the error of its listing. -/
theorem Program.add_error {p : Program} {source : Source} (hopen : source name = .ok given)
    (howner : ∀ owner, p.owner? (namespaceOf name) = some owner → owner = name)
    (herror : (listing name (p.context (namespaceOf name)) 1 given).error? = some error) :
    (p.add source name).2.value = .error error := by
  have hadd : (p.addLines name given).2.value = .error error := by
    simp only [addLines, herror]
  rw [add, hopen]
  dsimp only
  split
  · exact hadd
  · rename_i owner heq
    rw [if_pos (howner owner heq)]
    exact hadd

/-- A module in a file that holds a text is added as if the text were in memory. Where the bytes of
the file are no text, the first line that is rejected decides if it stands before the first piece
between line feeds that is no text, and else this piece. -/
theorem file_read_like_memory (p : Program) (disk : Disk) (root : Path) (name : String)
    (location : Location) (bytes : Bytes)
    (h : disk.lookup (root.join (moduleFile name)) = .ok (location, .file bytes)) :
    (∀ (text : String) (memory : Memory), bytes = Text.encode text →
      memory.lookup name = some text →
      p.add (.ofDirectory disk root) name = p.add (.ofMemory memory) name) ∧
    (Text.Undecodable bytes → (∀ owner, p.owner? (namespaceOf name) = some owner → owner = name) →
      (∃ front, Text.BreaksAfter bytes front) ∧ ∀ front, Text.BreaksAfter bytes front →
        (∀ before line after text fault, front.map Text.endLine = before ++ line :: after →
          (∀ line' ∈ before, ∀ text' fault', ¬ Rejects line' text' fault') →
          Rejects line text fault →
          (p.add (.ofDirectory disk root) name).2.value =
            .error (.line name (before.length + 1) text fault)) ∧
        ((∀ line ∈ front.map Text.endLine, ∀ text fault, ¬ Rejects line text fault) →
          (p.add (.ofDirectory disk root) name).2.value = .error (.notRead name .notText))) := by
  have hopen := ofDirectory_eq_ok h
  constructor
  · rintro text memory rfl hmemory
    apply p.add_congr
    rw [hopen, Source.ofMemory_eq_ok hmemory, fileLines_encode]
  · intro hbytes howner
    refine ⟨hbytes.exists_breaksAfter, fun front hfront => ?_⟩
    obtain ⟨rest, hlines⟩ := hfront.fileLines
    rw [hlines] at hopen
    have horder {given : List String} (hgiven : ∀ line ∈ given, ∀ text fault,
        ¬ Rejects line text fault) : ∀ line ∈ given.map Except.ok, LineInOrder line := by
      rw [List.forall_mem_map]
      exact fun line hline => (lineInOrder_iff_not_rejects line).mpr (hgiven line hline)
    constructor
    · intro before line after text fault hsplit hbefore hrejects
      apply Program.add_error hopen howner
      rw [hsplit, List.map_append, List.append_assoc, List.map_cons, List.cons_append]
      obtain ⟨ctx, herror⟩ := listing_error?_append name (p.context (namespaceOf name)) 1
        (.ok line :: (after.map .ok ++ .error .notText :: rest)) (horder hbefore)
      rw [herror, (listing_rejects name ctx _ _ hrejects).2, List.length_map, Nat.add_comm]
    · intro hnone
      apply Program.add_error hopen howner
      obtain ⟨ctx, herror⟩ := listing_error?_append name (p.context (namespaceOf name)) 1
        (.error .notText :: rest) (horder hnone)
      rw [herror, listing]

/-- A text with carriage returns, and two files that are no text: one with a line that is no command
before the bytes in question, and one behind them. -/
def mixedFiles : Disk where
  entries := [
    (["A.vm"], .file (Text.encode "eq // ü\r\n\r\nlt\r")),
    (["B.vm"], .file (Text.encode "eq\r\nfrob\n" ++ [0xFF])),
    (["C.vm"], .file (0xFF :: Text.encode "\nfrob"))]

theorem file_read_mixed :
    (Program.empty {}).add (.ofDirectory mixedFiles ⟨"."⟩) "A" =
        (Program.empty {}).add (.ofMemory [("A", "eq // ü\r\n\r\nlt\r")]) "A" ∧
      ((Program.empty {}).add (.ofDirectory mixedFiles ⟨"."⟩) "B").2.value =
        .error (.line "B" 2 "frob" (.unknownCommand "frob")) ∧
      ((Program.empty {}).add (.ofDirectory mixedFiles ⟨"."⟩) "C").2.value =
        .error (.notRead "C" .notText) := by
  have hread (name : String) (bytes : Bytes)
      (h : mixedFiles.lookup (.join ⟨"."⟩ (moduleFile name)) =
        .ok ([name ++ ".vm"], .file bytes)) :=
    file_read_like_memory (.empty {}) mixedFiles ⟨"."⟩ name _ bytes h
  have hbad : Text.Undecodable [0xFF] := Text.decode?_eq_none.mp (by decide +kernel)
  refine ⟨?_, ?_, ?_⟩
  · exact (hread "A" _ rfl).1 _ _ rfl rfl
  · have hbytes : Text.Undecodable (Text.encode "eq\r\nfrob\n" ++ [0xFF]) :=
      Text.decode?_eq_none.mp (by decide +kernel)
    have hfront : Text.BreaksAfter (Text.encode "eq\r\nfrob\n" ++ [0xFF]) ["eq\r", "frob"] :=
      ⟨[0xFF], [], by decide +kernel, hbad⟩
    have heq : Carries "eq" "eq" (.arithmetic .eq) := ⟨by decide, by decide, nofun⟩
    refine (((hread "B" _ rfl).2 hbytes nofun).2 _ hfront).1 ["eq"] "frob" [] _ _ ?_ ?_ ?_
    · decide
    · rw [List.forall_mem_singleton, ← lineInOrder_iff_not_rejects]
      exact heq.lineInOrder
    · exact .unread (by decide) (by decide)
  · have hbytes : Text.Undecodable (0xFF :: Text.encode "\nfrob") :=
      Text.decode?_eq_none.mp (by decide +kernel)
    have hfront : Text.BreaksAfter (0xFF :: Text.encode "\nfrob") [] :=
      ⟨[0xFF], [Text.encode "frob"], by decide +kernel, hbad⟩
    exact (((hread "C" _ rfl).2 hbytes nofun).2 _ hfront).2 nofun

end HackVM
