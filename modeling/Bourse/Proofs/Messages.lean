import Bourse.Proofs.WireRoundTrip
import Bourse.Service.Stream

/-!
# Which messages of a stream can be read

A stream writes five kinds of messages and can read three of them: reports, pictures and errors
come back as they were. Pings and pongs do not, whatever their timestamp, and so no text of a
client is a ping to the stream and no pong answers one.
-/

namespace Bourse

open Json

/-! ## How deep documents are -/

namespace Json

/-- A text has no depth. -/
@[simp] theorem depth_text (value : String) : (text value).depth = 0 := rfl

/-- A signed number has no depth. -/
@[simp] theorem depth_int (value : Int) : (int value).depth = 0 := rfl

/-- An unsigned number has no depth. -/
@[simp] theorem depth_nat (value : Nat) : (nat value).depth = 0 := rfl

/-- A record is one level deeper than its members. -/
theorem depth_record_le {members : List (String × Json)} {bound : Nat}
    (shallow : ∀ member ∈ members, member.2.depth ≤ bound) :
    (record members).depth ≤ bound + 1 := by
  rw [record_eq, depth, Nat.add_le_add_iff_right]
  induction members with
  | nil => exact Nat.zero_le _
  | cons member members induction =>
    obtain ⟨first, rest⟩ := List.forall_mem_cons.mp shallow
    exact Nat.max_le.mpr ⟨first, induction rest⟩

/-- An array is one level deeper than its items. -/
theorem depth_array_le {α : Type} {write : α → Json} {values : List α} {bound : Nat}
    (shallow : ∀ value ∈ values, (write value).depth ≤ bound) :
    (array (values.map write)).depth ≤ bound + 1 := by
  rw [depth, Nat.add_le_add_iff_right]
  induction values with
  | nil => exact Nat.zero_le _
  | cons value values induction =>
    obtain ⟨first, rest⟩ := List.forall_mem_cons.mp shallow
    exact Nat.max_le.mpr ⟨first, induction rest⟩

end Json

/-- No member of a report has any depth. -/
theorem Report.members_depth (report : Report) : ∀ member ∈ report.members, member.2.depth ≤ 0 := by
  cases given : report.text <;>
    simp [members, given, ReportKind.toJson, OrderId.toJson, Side.toJson, OrderType.toJson]

/-- A row of the depth is one level deep. -/
theorem DepthRow.depth_le (row : DepthRow) : row.toJson.depth ≤ 1 :=
  depth_record_le (by simp)

/-- A record is three levels deep: it holds the rows of its depth. -/
theorem Record.depth_le (record : Record) : record.toJson.depth ≤ 3 := by
  have rows : (array (record.depth.toList.map DepthRow.toJson)).depth ≤ 2 :=
    depth_array_le fun row _ => row.depth_le
  exact depth_record_le (by simp [Trend.toJson, rows])

/-- A picture holds records, and so its members are four levels deep. -/
theorem Picture.members_depth (picture : Picture) :
    ∀ member ∈ picture.members, member.2.depth ≤ 4 := by
  have records : (array (picture.records.map Record.toJson)).depth ≤ 4 :=
    depth_array_le fun record _ => record.depth_le
  simp [members, records]

/-! ## The type in front of the content -/

namespace Message

/-- The type is told apart from content that has no member of that name. -/
theorem partition_type {type : Json} {members : List (String × Json)}
    (apart : "type" ∉ members.map Prod.fst) :
    partitionType (keyed (("type", type) :: members)) = ([type], keyed members) := by
  have untyped : ∀ member ∈ keyed members, (member.1 == some "type") = false := by
    intro member listed
    obtain ⟨own, here, rfl⟩ := List.mem_map.mp listed
    simp only [beq_eq_false_iff_ne, ne_eq, Option.some.injEq]
    rintro named
    exact apart (named ▸ List.mem_map_of_mem here)
  have types : (keyed members).filter (fun member => member.1 == some "type") = [] :=
    List.filter_eq_nil_iff.mpr fun member listed => by simp [untyped member listed]
  have content : (keyed members).filter (not ∘ fun member => member.1 == some "type") =
      keyed members :=
    List.filter_eq_self.mpr fun member listed => by simp [untyped member listed]
  have split : (keyed (("type", type) :: members)).partition
      (fun member => member.1 == some "type") = ([(some "type", type)], keyed members) := by
    have whole : keyed (("type", type) :: members) = (some "type", type) :: keyed members := rfl
    rw [List.partition_eq_filter_filter, whole, List.filter_cons_of_pos rfl, types,
      List.filter_cons_of_neg (by simp), content]
  simp only [partitionType, split, List.map_cons, List.map_nil]

/-- A message is read from its type and its content. -/
theorem of_json_record {type : String} {members : List (String × Json)} {bound : Nat}
    (apart : "type" ∉ members.map Prod.fst)
    (exact : (record (("type", text type) :: members)).isExact = true)
    (shallow : ∀ member ∈ members, member.2.depth ≤ bound) (bounded : bound < maxDepth) :
    ofJson (.record (("type", text type) :: members)) =
      ofContent (text type) (.record members) := by
  have depth : (record (("type", text type) :: members)).depth ≤ bound + 1 :=
    depth_record_le (List.forall_mem_cons.mpr ⟨Nat.zero_le _, shallow⟩)
  obtain ⟨-, denoting, -⟩ := laws_of_exact exact
  have readable : ¬(!(record (("type", text type) :: members)).isDenoting ||
      decide (maxDepth < (record (("type", text type) :: members)).depth)) = true := by
    simp only [denoting, Bool.not_true, Bool.false_or, decide_eq_true_eq]
    omega
  show ofJson (.object (keyed (("type", text type) :: members))) = _
  rw [ofJson, ← record_eq, if_neg readable, partition_type apart]
  rfl

/-- A message is parsed from its text if its document has its type in front of content that
fits it. -/
theorem parse_rendered {message : Message} {type : String} {members : List (String × Json)}
    {bound : Nat} (written : message.toJson = .record (("type", text type) :: members))
    (apart : "type" ∉ members.map Prod.fst) (exact : (record members).isExact = true)
    (shallow : ∀ member ∈ members, member.2.depth ≤ bound) (bounded : bound < maxDepth)
    (content : ofContent (text type) (.record members) = .ok message) :
    parse? message.render = some message := by
  have typed : (record (("type", text type) :: members)).isExact = true := by
    rw [exact_record] at exact ⊢
    rw [List.all_cons, exact]
    rfl
  have read : Json.read? message.render = some (.record (("type", text type) :: members)) := by
    rw [render, written]
    exact read_compact typed
  rw [parse?, read]
  show (ofJson (.record (("type", text type) :: members))).toOption = some message
  rw [of_json_record apart typed shallow bounded, content]
  rfl

/-! ## The five kinds -/

/-- Whether a message is a report, a picture or an error. -/
def isContent : Message → Bool
  | .report _ | .picture _ | .error _ => true
  | .ping _ | .pong _ => false

/-- A word holds every number of the content. -/
def InWords : Message → Prop
  | .report sent => sent.InWords
  | .picture published => published.InWords
  | .error _ | .ping _ | .pong _ => True

instance : (message : Message) → Decidable message.InWords
  | .report sent => inferInstanceAs (Decidable sent.InWords)
  | .picture published => inferInstanceAs (Decidable published.InWords)
  | .error _ | .ping _ | .pong _ => instDecidableTrue

/-- The message of a report is read as it was written. -/
theorem parse_report {sent : Report} (words : sent.InWords) :
    parse? (report sent).render = some (report sent) := by
  refine parse_rendered rfl ?_ words.exact sent.members_depth (by decide) ?_
  · cases given : sent.text <;> simp [Report.members, given]
  · show ((Report.fields .buffered).decode sent.toJson).map report = _
    rw [words.decoded .buffered _ (.same _)]
    rfl

/-- So is the message of a picture. -/
theorem parse_picture {published : Picture} (words : published.InWords) :
    parse? (picture published).render = some (picture published) := by
  refine parse_rendered rfl ?_ words.exact published.members_depth (by decide) ?_
  · simp [Picture.members]
  · show ((Picture.fields .buffered).decode published.toJson).map picture = _
    rw [words.decoded .buffered _ (.same _)]
    rfl

/-- So is the message of an error. -/
theorem parse_error (reason : String) : parse? (error reason).render = some (error reason) := by
  have fields : (Fields.required "message" toText).Gives
      (fun name => (record [("message", text reason)]).member? name) reason :=
    .single rfl (gives_text reason)
  refine parse_rendered rfl (by simp) (by simp) (by simp : ∀ member ∈ _, _ ≤ 0) (by decide) ?_
  show ((Fields.required "message" toText).decode (record [("message", text reason)])).map error = _
  rw [fields.decoded (by simp) (by simp) _ (.same _)]
  rfl

/-- A message of a timestamp is not parsed if its type is none with readable content. -/
theorem parse_timestamp {message : Message} {type : String} {timestamp : Nat}
    (written : message.toJson = .record [("type", text type), ("timestamp", .nat timestamp)])
    (unknown : ∀ content, ofContent (text type) content = .error .shape) :
    parse? message.render = none := by
  have read : Json.read? message.render = some (.record [("type", text type),
      ("timestamp", .number (Number.integer false timestamp).reread)]) := by
    rw [render, written]
    exact read_whole rfl
  have refused : ∀ members, partitionType members = ([text type], members.drop 1) →
      (ofJson (.object members)).toOption = none := by
    intro members split
    rw [ofJson, split]
    dsimp only
    rw [unknown]
    split_ifs <;> rfl
  rw [parse?, read]
  exact refused _ rfl

/-- The message of a ping is read as none. -/
theorem parse_ping (timestamp : Nat) : parse? (ping timestamp).render = none :=
  parse_timestamp rfl fun _ => rfl

/-- So is the message of a pong. -/
theorem parse_pong (timestamp : Nat) : parse? (pong timestamp).render = none :=
  parse_timestamp rfl fun _ => rfl

/-- What is made of a decoded value is of the kind that it is made into. -/
theorem content_of_map {α : Type} {decoded : Except Fault α} {make : α → Message}
    {message : Message} (made : decoded.map make = .ok message)
    (content : ∀ value, (make value).isContent = true) : message.isContent = true := by
  cases decoded with
  | error fault => contradiction
  | ok value =>
    cases made
    exact content value

/-- Whatever a type makes of content is content. -/
theorem content_of_content {type document : Json} {message : Message}
    (decoded : ofContent type document = .ok message) : message.isContent = true := by
  unfold ofContent at decoded
  cases named : toText type with
  | error fault =>
    rw [named] at decoded
    contradiction
  | ok name =>
    simp only [named, bind, Except.bind] at decoded
    split at decoded
    · exact content_of_map decoded fun _ => rfl
    · exact content_of_map decoded fun _ => rfl
    · exact content_of_map decoded fun _ => rfl
    · contradiction

/-- Whatever is parsed is content. -/
theorem content_of_parsed {source : String} {message : Message}
    (parsed : parse? source = some message) : message.isContent = true := by
  obtain ⟨document, -, decoded⟩ := Option.bind_eq_some_iff.mp parsed
  have made : ofJson document = .ok message := by
    cases made : ofJson document with
    | error fault => rw [made] at decoded; contradiction
    | ok found =>
      rw [made] at decoded
      cases decoded
      rfl
  unfold ofJson at made
  split at made
  · contradiction
  · split at made
    · split at made
      · exact content_of_content made
      · contradiction
    · exact content_of_content made
    · contradiction

end Message

/-- A message is read back as it was sent exactly if it is a report, a picture or an error; a ping
or a pong is not read at all. So no text of a client gets a reply. -/
theorem only_content_is_read_back (message : Message) (words : message.InWords) :
    (Message.parse? message.render = some message ↔ message.isContent = true) ∧
      (message.isContent = false → Message.parse? message.render = none) ∧
      ∀ content, (ClientFrame.text content).reply = .none := by
  have read : Message.parse? message.render = if message.isContent then some message else none := by
    cases message with
    | report sent => exact Message.parse_report words
    | picture published => exact Message.parse_picture words
    | error reason => exact Message.parse_error reason
    | ping timestamp => exact Message.parse_ping timestamp
    | pong timestamp => exact Message.parse_pong timestamp
  refine ⟨?back, ?lost, ?unanswered⟩
  case back => cases kind : message.isContent <;> simp [read, kind]
  case lost =>
    intro empty
    rw [read, empty]
    rfl
  case unanswered =>
    intro content
    cases parsed : Message.parse? content with
    | none => simp only [ClientFrame.reply, parsed]
    | some found =>
      have readable := Message.content_of_parsed parsed
      cases found with
      | report | picture | error => simp only [ClientFrame.reply, parsed]
      | ping | pong => contradiction

/-- A report with a text that needs escapes comes back, and a ping does not. -/
theorem report_but_no_ping_is_read :
    let sent : Report :=
      ⟨.rejected, ⟨7⟩, "a\"b", "", "X", "s", .buy, .limit, Word.greatest, 0, 0, 0, 0, Word.least,
        some "line\n"⟩
    (Message.report sent).InWords ∧
      Message.parse? (Message.report sent).render = some (.report sent) ∧
      Message.parse? (Message.ping 7).render = none := by
  intro sent
  have words : (Message.report sent).InWords := by decide
  obtain ⟨back, -⟩ := only_content_is_read_back (.report sent) words
  obtain ⟨-, lost, -⟩ := only_content_is_read_back (.ping 7) trivial
  exact ⟨words, back.mpr rfl, lost rfl⟩

/-- A ping is neither read back nor answered with its pong. -/
theorem ping_is_lost :
    Message.parse? (Message.ping 7).render ≠ some (.ping 7) ∧
      (ClientFrame.text (Message.ping 7).render).reply ≠ .message (.pong 7) := by
  have lost : Message.parse? (Message.ping 7).render = none := Message.parse_ping 7
  constructor
  · rw [lost]
    exact nofun
  · simp only [ClientFrame.reply, lost]
    exact nofun

end Bourse
