import ServiceGraph.Graph.Report
import ServiceGraph.Proofs.Text.Utf8

namespace ServiceGraph

/-- Every character as a piece of its own. -/
def Serializer.byCharacter : Serializer := fun l =>
  (Json.pretty 0 l.toJson).map String.utf8EncodeChar

namespace Sink

variable {s : Sink} {pieces : List (List UInt8)}

theorem write_of_le {bytes : List UInt8} (h : bytes.length ≤ s.room) :
    s.write bytes = .ok ⟨s.room - bytes.length, s.taken ++ bytes⟩ :=
  if_pos h

theorem write_of_lt {bytes : List UInt8} (h : s.room < bytes.length) : s.write bytes = .error s :=
  if_neg (by omega)

/-- Pieces that fit together are all taken. -/
theorem writeAll_of_le (h : pieces.flatten.length ≤ s.room) : s.writeAll pieces =
    .ok ⟨s.room - pieces.flatten.length, s.taken ++ pieces.flatten⟩ := by
  induction pieces generalizing s with
  | nil => simp [writeAll]
  | cons piece pieces ih =>
    rw [List.flatten_cons, List.length_append] at h
    have fits : piece.length ≤ s.room := by omega
    rw [writeAll, write_of_le fits]
    dsimp only
    rw [ih (by dsimp only; omega)]
    simp [Nat.sub_sub]

/-- Of pieces that do not fit together one is refused, and those before it were taken. -/
theorem writeAll_of_lt (h : s.room < pieces.flatten.length) :
    ∃ s', s.writeAll pieces = .error s' ∧ s'.taken <+: s.taken ++ pieces.flatten := by
  induction pieces generalizing s with
  | nil => simp at h
  | cons piece pieces ih =>
    rw [writeAll]
    rcases Nat.lt_or_ge s.room piece.length with hlarge | hfits
    · rw [write_of_lt hlarge]
      exact ⟨s, rfl, List.prefix_append _ _⟩
    · -- the piece fits, so one of the others does not
      rw [List.flatten_cons, List.length_append] at h
      rw [write_of_le hfits]
      obtain ⟨s', hrest, htaken⟩ :=
        ih (s := ⟨s.room - piece.length, s.taken ++ piece⟩) (by dsimp only; omega)
      refine ⟨s', hrest, ?_⟩
      simpa using htaken

/-- The place after some characters were written, and perhaps the next one refused. -/
def after (s : Sink) : List Char × Option Nat → Except Sink Sink
  | (written, some left) => .ok ⟨left, s.taken ++ Text.encode written⟩
  | (written, none) =>
    .error ⟨s.room - (Text.encode written).length, s.taken ++ Text.encode written⟩

theorem writeAll_characters (s : Sink) (cs : List Char) :
    s.writeAll (cs.map String.utf8EncodeChar) = s.after (writeWithin s.room cs) := by
  induction cs generalizing s with
  | nil => simp [writeAll, writeWithin, after, Text.encode_eq]
  | cons c cs ih =>
    have size : (String.utf8EncodeChar c).length = c.utf8Size := String.length_utf8EncodeChar c
    rw [List.map_cons, writeAll, writeWithin]
    rcases Nat.lt_or_ge s.room c.utf8Size with hlarge | hfits
    · rw [write_of_lt (by omega), if_neg (by omega)]
      simp [after, Text.encode_eq]
    · rw [write_of_le (by omega), if_pos hfits]
      dsimp only
      rw [ih, size]
      dsimp only
      rcases writeWithin (s.room - c.utf8Size) cs with ⟨written, left⟩
      cases left with
      | none => simp [after, Text.encode_eq, Nat.sub_sub]
      | some left => simp [after, Text.encode_eq]

end Sink

theorem Text.encode_newline : Text.encode ['\n'] = [10] := by
  rw [Text.encode_eq]
  rfl

namespace Discovery

variable {d : Discovery} {serialize : Serializer} {room : Nat}

theorem encode_report (d : Discovery) :
    Text.encode d.report = Text.encode d.reportBody ++ [10] := by
  rw [report, Text.encode_append, Text.encode_newline]

theorem utf8ByteSize_report (d : Discovery) :
    (String.ofList d.report).utf8ByteSize = (Text.encode d.reportBody).length + 1 := by
  rw [← Text.length_encode, encode_report, List.length_append]
  rfl

section Cases

variable (h : serialize.Faithful)
include h

/-- The body is taken as a whole if it fits, however it is cut. -/
theorem writeAll_body_of_le (hroom : (Text.encode d.reportBody).length ≤ room) :
    (Sink.ofRoom room).writeAll (serialize d.graph.adjacency) =
      .ok ⟨room - (Text.encode d.reportBody).length, Text.encode d.reportBody⟩ := by
  have whole : (serialize d.graph.adjacency).flatten = Text.encode d.reportBody := h _
  rw [← whole] at hroom ⊢
  exact Sink.writeAll_of_le hroom

theorem writeTo_of_le (hroom : (String.ofList d.report).utf8ByteSize ≤ room) :
    ∃ s, d.writeTo serialize (.ofRoom room) = (s, none) ∧ s.taken = Text.encode d.report := by
  rw [utf8ByteSize_report] at hroom
  have fits : ([10] : List UInt8).length ≤ room - (Text.encode d.reportBody).length := by
    rw [List.length_singleton]
    omega
  rw [writeTo, writeAll_body_of_le h (by omega), Text.encode_newline]
  dsimp only
  rw [Sink.write_of_le fits]
  exact ⟨_, rfl, (encode_report d).symm⟩

theorem writeTo_of_eq (hroom : room + 1 = (String.ofList d.report).utf8ByteSize) :
    ∃ s, d.writeTo serialize (.ofRoom room) = (s, some .newline) ∧
      s.taken = Text.encode d.reportBody := by
  rw [utf8ByteSize_report] at hroom
  have full : room - (Text.encode d.reportBody).length < ([10] : List UInt8).length := by
    rw [List.length_singleton]
    omega
  rw [writeTo, writeAll_body_of_le h (by omega), Text.encode_newline]
  dsimp only
  rw [Sink.write_of_lt full]
  exact ⟨_, rfl, rfl⟩

theorem writeTo_of_lt (hroom : room + 1 < (String.ofList d.report).utf8ByteSize) :
    ∃ s, d.writeTo serialize (.ofRoom room) = (s, some .body) ∧
      s.taken <+: Text.encode d.reportBody := by
  have whole : (serialize d.graph.adjacency).flatten = Text.encode d.reportBody := h _
  rw [utf8ByteSize_report, ← whole] at hroom
  have large : (Sink.ofRoom room).room < (serialize d.graph.adjacency).flatten.length :=
    Nat.lt_of_succ_lt_succ hroom
  obtain ⟨s, refused, taken⟩ := Sink.writeAll_of_lt large
  rw [whole] at taken
  rw [writeTo, refused]
  exact ⟨s, rfl, taken⟩

end Cases

theorem faithful_byCharacter : Serializer.byCharacter.Faithful := by
  intro l
  rw [Serializer.byCharacter, Text.encode_eq, List.flatMap_def]

/-- The report is written character by character. -/
theorem writeTo_byCharacter (d : Discovery) (room : Nat) :
    ∃ s, d.writeTo .byCharacter (.ofRoom room) = (s, (d.writeReport room).2) ∧
      s.taken = Text.encode (d.writeReport room).1 := by
  have body : (Sink.ofRoom room).writeAll (Serializer.byCharacter d.graph.adjacency) =
      (Sink.ofRoom room).after (writeWithin room d.reportBody) :=
    Sink.writeAll_characters (.ofRoom room) d.reportBody
  rw [writeTo, writeReport, body]
  rcases writeWithin room d.reportBody with ⟨written, left⟩
  cases left with
  | none => exact ⟨_, rfl, rfl⟩
  | some left =>
    dsimp only [Sink.after]
    rw [Text.encode_newline]
    rcases Nat.lt_or_ge left 1 with hfull | hleft
    · have full : left < ([10] : List UInt8).length := hfull
      have last : writeWithin left ['\n'] = ([], none) := if_neg (Nat.not_le_of_lt hfull)
      rw [Sink.write_of_lt full, last]
      refine ⟨_, rfl, ?_⟩
      dsimp only
      rw [List.append_nil]
      rfl
    · have fits : ([10] : List UInt8).length ≤ left := hleft
      have last : writeWithin left ['\n'] = (['\n'], some (left - 1)) := if_pos hleft
      rw [Sink.write_of_le fits, last]
      refine ⟨_, rfl, ?_⟩
      dsimp only
      rw [Text.encode_append, Text.encode_newline]
      rfl

/-- What became of a report in limited room. With room for all of it nothing goes wrong. With room
for all but one byte the newline cannot be written, which is an error of output. With less room the
body cannot be written, which is an error of serialization. What was taken is a start of the
report. -/
structure WrittenWithin (d : Discovery) (room : Nat) (taken : List UInt8)
    (fault : Option WriteError) : Prop where
  complete : fault = none ↔ (String.ofList d.report).utf8ByteSize ≤ room
  newline : fault = some .newline ↔ room + 1 = (String.ofList d.report).utf8ByteSize
  body : fault = some .body ↔ room + 1 < (String.ofList d.report).utf8ByteSize
  start : taken <+: Text.encode d.report
  whole : fault = none → taken = Text.encode d.report

theorem writtenWithin_writeTo (d : Discovery) (h : serialize.Faithful) (room : Nat) :
    d.WrittenWithin room (d.writeTo serialize (.ofRoom room)).1.taken
      (d.writeTo serialize (.ofRoom room)).2 := by
  have body_start : Text.encode d.reportBody <+: Text.encode d.report := by
    rw [encode_report]
    exact List.prefix_append _ _
  rcases Nat.lt_trichotomy (room + 1) (String.ofList d.report).utf8ByteSize with
    hless | hequal | hmore
  · obtain ⟨s, hs, taken⟩ := writeTo_of_lt h hless
    rw [hs]
    refine ⟨?_, ?_, ?_, taken.trans body_start, nofun⟩
    · exact iff_of_false nofun (by omega)
    · exact iff_of_false nofun (by omega)
    · exact iff_of_true rfl hless
  · obtain ⟨s, hs, taken⟩ := writeTo_of_eq h hequal
    rw [hs, taken]
    refine ⟨?_, ?_, ?_, body_start, nofun⟩
    · exact iff_of_false nofun (by omega)
    · exact iff_of_true rfl hequal
    · exact iff_of_false nofun (by omega)
  · obtain ⟨s, hs, taken⟩ := writeTo_of_le h (Nat.le_of_lt_succ hmore)
    rw [hs, taken]
    refine ⟨?_, ?_, ?_, List.prefix_refl _, fun _ => rfl⟩
    · exact iff_of_true rfl (by omega)
    · exact iff_of_false nofun (by omega)
    · exact iff_of_false nofun (by omega)

theorem writtenWithin_writeReport (d : Discovery) (room : Nat) :
    d.WrittenWithin room (Text.encode (d.writeReport room).1) (d.writeReport room).2 := by
  obtain ⟨s, hs, taken⟩ := d.writeTo_byCharacter room
  have written := d.writtenWithin_writeTo faithful_byCharacter room
  rwa [hs, taken] at written

theorem writeReport_of_le (d : Discovery) {room : Nat}
    (h : (String.ofList d.report).utf8ByteSize ≤ room) : d.writeReport room = (d.report, none) := by
  have written := d.writtenWithin_writeReport room
  have complete := written.complete.2 h
  exact Prod.ext (Text.encode_inj (written.whole complete)) complete

/-- Whether a report can be written, and what goes wrong, is a matter of room alone, for every way
in which a serializer cuts the text. Writing it by characters is one of them. -/
theorem report_written_within (d : Discovery) {serialize : Serializer} (h : serialize.Faithful)
    (room : Nat) :
    d.WrittenWithin room (d.writeTo serialize (.ofRoom room)).1.taken
      (d.writeTo serialize (.ofRoom room)).2 ∧
    d.WrittenWithin room (Text.encode (d.writeReport room).1) (d.writeReport room).2 :=
  ⟨d.writtenWithin_writeTo h room, d.writtenWithin_writeReport room⟩

/-- A service that nobody calls. -/
def loneService : Discovery where
  clients := []
  endpoints := [⟨"net/http", "Handle", "a", "/", true, none, [⟨"a.go", 2⟩]⟩]
  busCalls := []

/-- Brackets, indentation, quotes and names as pieces of their own. -/
def serializeParts : Serializer := fun l =>
  if l = .ofList [("a", [])] then
    ["\x7b", "\n", "  ", "\"", "a", "\"", ": ", "[", "]", "\n", "\x7d"].map fun part =>
      part.toList.flatMap String.utf8EncodeChar
  else Serializer.byCharacter l

theorem loneService_written_within : serializeParts.Faithful ∧
    (loneService.writeTo serializeParts (.ofRoom 14)).2 = none ∧
    (loneService.writeTo serializeParts (.ofRoom 13)).2 = some .newline ∧
    (loneService.writeTo serializeParts (.ofRoom 12)).2 = some .body := by
  have faithful : serializeParts.Faithful := by
    intro l
    rw [serializeParts]
    split
    next hl =>
      rw [hl, Text.encode_eq]
      decide
    next => exact faithful_byCharacter l
  have size : (String.ofList loneService.report).utf8ByteSize = 14 := by
    rw [← Text.length_encode, Text.encode_eq]
    decide
  have written := loneService.report_written_within faithful
  exact ⟨faithful, (written 14).1.complete.2 (by omega), (written 13).1.newline.2 (by omega),
    (written 12).1.body.2 (by omega)⟩

end Discovery

end ServiceGraph
