import Bourse.Client.Output
import Bourse.Proofs.Consistency
import Bourse.Proofs.PercentEscapes
import Bourse.Proofs.WireRoundTrip

/-!
# Securities in addresses

A client puts the name of a security into the address of its picture as it is, and a security may
bear any name. The service is asked for the security of that name exactly if the name is
addressable: it has no tab, line break, slash, backslash, question mark or number sign, it is no
dots, and no part of it is read as an escape. The empty name is addressable, and so are names
with spaces, with percent signs that begin no escape, and with characters beyond ASCII.

That an addressable name arrives is shown step by step. For the converse the steps are not
retraced: the name that arrives is no longer in bytes than the segment that it is decoded from,
and that segment no longer than the name typed. If the names are the same, no step has shortened
anything, and so no step has changed anything.
-/

namespace Bourse

open Json

/-! ## Names that arrive -/

namespace Client

/-- A name that is left as it is on the way through an address. -/
@[mk_iff]
structure Addressable (name : String) : Prop where
  unmarked : ∀ c ∈ name.toList, isMark c = false
  whole : '/' ∉ name.toList
  dotless : isDots name.toList = false
  unescaped : Text.percentDecoded (Text.utf8 name) = Text.utf8 name

instance (name : String) : Decidable (Addressable name) :=
  -- decided along the name, and not for every character there is
  have : Decidable (∀ c ∈ name.toList, isMark c = false) := List.decidableBAll _ _
  decidable_of_iff' _ (addressable_iff name)

/-- The parts of the address of a picture. -/
def pictureParts (name : List Char) : List (List Char) :=
  ["securities".toList, name, "picture".toList]

end Client

/-- The security whose picture a request asks for. -/
def HttpRequest.pictured? (request : HttpRequest) : Option String :=
  match Route.ofPath (splitTarget request.target).1 with
  | some (.picture part) => decodedPart part
  | _ => none

open Client

/-- The path that the service finds in a request for a picture. -/
theorem path_of_picture (name : String) :
    (HttpRequest.splitTarget (Command.picture name).request.target).1 =
      pathOf ((segmentsOf (pathOf (pictureParts name.toList))).map (escaped isEscapedInPath)) := by
  have target : (Command.picture name).request.target =
      targetOf ("/securities/" ++ name ++ "/picture") := rfl
  have typed : ("/securities/" ++ name ++ "/picture").toList =
      pathOf (pictureParts name.toList) := by
    simp [pictureParts]
  rw [target, path_of_target, typed]

/-- The route to a picture is of the parts of its address. -/
theorem route_of_picture {path part : List Char} :
    Route.ofPath path = some (.picture part) ↔ Text.pieces '/' path = [] :: pictureParts part := by
  constructor
  · intro route
    have named : (Text.pieces '/' path).map String.ofList =
        ["", "securities", String.ofList part, "picture"] := by
      unfold Route.ofPath at route
      split at route
      case h_3 security written =>
        injections route
        subst_vars
        rw [written, String.ofList_toList]
      all_goals simp at route
    have back : ((Text.pieces '/' path).map String.ofList).map String.toList =
        Text.pieces '/' path := by
      simp [Function.comp_def]
    rw [← back, named]
    simp [pictureParts]
  · intro pieces
    rw [Route.ofPath, pieces]
    simp [pictureParts]

/-- A request for a picture asks for the middle one of its three segments. -/
theorem segments_of_pictured {name other : String}
    (pictured : (Command.picture name).request.pictured? = some other) :
    ∃ segment, segmentsOf (pathOf (pictureParts name.toList)) = pictureParts segment ∧
      Text.percentDecoded (Text.utf8 (String.ofList segment)) = Text.utf8 other := by
  unfold HttpRequest.pictured? at pictured
  rw [path_of_picture] at pictured
  have whole := segments_whole (pathOf (pictureParts name.toList))
  generalize segmentsOf (pathOf (pictureParts name.toList)) = segments at pictured whole ⊢
  split at pictured
  case h_2 => contradiction
  case h_1 part route =>
    have kept : ∀ written ∈ segments.map (escaped isEscapedInPath), '/' ∉ written := by
      intro written listed slash
      obtain ⟨segment, own, rfl⟩ := List.mem_map.mp listed
      exact (whole segment own).1 (mem_of_escaped slash (by decide)).1
    have parts := route_of_picture.mp route
    rw [pieces_of_whole kept, List.cons_inj_right] at parts
    obtain ⟨first, _, rfl, securities, behind⟩ := List.map_eq_cons_iff.mp parts
    obtain ⟨segment, _, rfl, rfl, ends⟩ := List.map_eq_cons_iff.mp behind
    obtain ⟨last, _, rfl, picture, nothing⟩ := List.map_eq_cons_iff.mp ends
    obtain rfl := List.map_eq_nil_iff.mp nothing
    have plain {cs : List Char} {word : List Char} (written : escaped isEscapedInPath cs = word)
        (simple : '%' ∉ word) : cs = word :=
      (escaped_of_no_percent (written ▸ simple)).symm.trans written
    rw [plain securities (by decide), plain picture (by decide)]
    refine ⟨segment, rfl, ?_⟩
    rw [← Text.decoded_escaped]
    exact Text.eq_of_read_utf8 pictured

/-- The path to a picture grows with the name. -/
theorem size_of_picture (name : List Char) :
    Text.size (pathOf (pictureParts name)) =
      Text.size (pathOf (pictureParts [])) + Text.size name := by
  simp only [pictureParts, path_of_cons, path_of_nil, Text.size_cons, Text.size_append,
    Text.size_nil]
  omega

/-- The segment is shorter than the name typed, or the path is left as long as it was and has no
marks any more. -/
theorem size_of_segment {name segment : List Char}
    (segments : segmentsOf (pathOf (pictureParts name)) = pictureParts segment) :
    Text.size segment < Text.size name ∨ Text.size segment = Text.size name ∧
      pathOf (pictureParts segment) = pathText (pathOf (pictureParts name)) := by
  have begins : '/' :: ("securities/".toList ++ name ++ "/picture".toList) =
      pathOf (pictureParts name) := by
    simp [pictureParts]
  have address := segments_size ("securities/".toList ++ name ++ "/picture".toList)
  rw [begins, segments] at address
  rcases address with less | ⟨kept, straight⟩
  · left
    rw [size_of_picture, size_of_picture name] at less
    omega
  · have long := congrArg Text.size (kept.trans straight)
    rw [size_straightened, size_of_picture, size_of_picture name] at long
    exact .inr ⟨by omega, kept⟩

/-- A name that is decoded from a segment is shorter than the segment, or the same. -/
theorem size_of_decoded {name : String} {segment : List Char}
    (decoded : Text.percentDecoded (Text.utf8 (String.ofList segment)) = Text.utf8 name) :
    Text.size name.toList < Text.size segment ∨ String.ofList segment = name := by
  have bytes := Text.percent_decoded_length (Text.utf8 (String.ofList segment))
  rw [decoded] at bytes
  rcases bytes with less | same
  · left
    rwa [Text.size_eq_length, ← String.ofList_toList (s := name), Text.size_eq_length] at less
  · exact .inr (Text.eq_of_utf8 same.symm)

/-- A name that arrives has come through every step as it was, since none has shortened it. -/
theorem addressable_of_pictured {name : String}
    (pictured : (Command.picture name).request.pictured? = some name) : Addressable name := by
  obtain ⟨segment, segments, decoded⟩ := segments_of_pictured pictured
  obtain ⟨rfl, kept⟩ : String.ofList segment = name ∧
      pathOf (pictureParts segment) = pathText (pathOf (pictureParts name.toList)) := by
    rcases size_of_segment segments with less | ⟨equal, kept⟩ <;>
      rcases size_of_decoded decoded with longer | same
    · omega
    · rw [← same, String.toList_ofList] at less
      omega
    · omega
    · exact ⟨same, kept⟩
  rw [String.toList_ofList] at kept segments
  have listed : segment ∈ segmentsOf (pathOf (pictureParts segment)) := by
    rw [segments]
    simp [pictureParts]
  obtain ⟨whole, dotless⟩ := segments_whole _ segment listed
  constructor
  case unmarked =>
    intro c member
    rw [String.toList_ofList] at member
    have inside : c ∈ pathText (pathOf (pictureParts segment)) := by
      rw [← kept]
      simp [pictureParts, member]
    exact unmarked_of_path_text inside
  case whole => rwa [String.toList_ofList]
  case dotless => rwa [String.toList_ofList]
  case unescaped => exact decoded

/-- The segments around the name are words. -/
theorem words_of_picture : (∀ c ∈ "securities".toList, c.isAlphanum = true) ∧
    ∀ c ∈ "picture".toList, c.isAlphanum = true :=
  ⟨List.all_eq_true.mp (by decide), List.all_eq_true.mp (by decide)⟩

/-- An addressable name stays in its place between the other segments. -/
theorem segments_of_addressable {name : String} (addressable : Addressable name) :
    segmentsOf (pathOf (pictureParts name.toList)) = pictureParts name.toList := by
  refine segments_of_path ?_ ?_ ?_
  · intro c member
    have slash : isMark '/' = false := by decide
    simp only [pictureParts, path_of_cons, path_of_nil, List.append_nil, List.mem_cons,
      List.mem_append] at member
    rcases member with rfl | first | rfl | own | rfl | last
    · exact slash
    · exact unmarked_of_alphanum (words_of_picture.1 c first)
    · exact slash
    · exact addressable.unmarked c own
    · exact slash
    · exact unmarked_of_alphanum (words_of_picture.2 c last)
  · simp only [pictureParts, List.forall_mem_cons]
    exact ⟨by decide, addressable.whole, by decide, nofun⟩
  · simp only [pictureParts, List.forall_mem_cons]
    exact ⟨by decide, addressable.dotless, by decide, nofun⟩

/-- A request for a picture asks for the security of the name typed exactly if the name is
addressable. -/
theorem pictured_iff (name : String) :
    (Command.picture name).request.pictured? = some name ↔ Addressable name := by
  constructor
  · exact addressable_of_pictured
  · intro addressable
    have written : (pictureParts name.toList).map (escaped isEscapedInPath) =
        pictureParts (escaped isEscapedInPath name.toList) := by
      simp only [pictureParts, List.map_cons, List.map_nil, escaped_plain words_of_picture.1,
        escaped_plain words_of_picture.2]
    have whole : ∀ part ∈ pictureParts (escaped isEscapedInPath name.toList), '/' ∉ part := by
      simp only [pictureParts, List.forall_mem_cons]
      refine ⟨by decide, ?_, by decide, nofun⟩
      exact fun slash => addressable.whole (mem_of_escaped slash (by decide)).1
    have route : Route.ofPath (pathOf ((pictureParts name.toList).map (escaped isEscapedInPath))) =
        some (.picture (escaped isEscapedInPath name.toList)) := by
      rw [written]
      exact route_of_picture.mpr (pieces_of_whole whole)
    unfold HttpRequest.pictured?
    rw [path_of_picture, segments_of_addressable addressable, route]
    show Text.readUtf8? _ = _
    rw [Text.decoded_escaped, String.ofList_toList, addressable.unescaped, Text.read_utf8]

example : Addressable "" ∧ Addressable "5 % é" ∧
    ∀ name ∈ ["A/B", "A\\B", "A?", "A#", "A\tB", "..", "%41"], ¬Addressable name := by
  decide

/-! ## Answers with a record -/

/-- What a query shows of a book. -/
def Book.view (book : Book) : BookView := ⟨book.isActive, book.counts, book.picture⟩

/-- A word holds every number of the view. -/
@[mk_iff]
structure BookView.InWords (view : BookView) : Prop where
  resting : view.resting.InWords
  record : view.record.InWords

instance (view : BookView) : Decidable view.InWords :=
  decidable_of_iff' _ (BookView.inWords_iff view)

/-- The document of a view within words loses nothing when it is written. -/
theorem BookView.InWords.exact {view : BookView} (words : view.InWords) :
    view.toJson.isExact = true := by
  simp [toJson, words.resting.exact, words.record.exact]
  rfl

/-- A truth value is decoded from its document. -/
theorem gives_bool (value : Bool) : Gives toBool (.bool value) value := .of_scalar rfl rfl

/-- The client reads the record in a view, and whether its book is open. -/
theorem BookView.InWords.decoded {view : BookView} (words : view.InWords) :
    Gives viewFields.decode view.toJson (view.isActive, view.record) := by
  have fields : viewFields.Gives (fun name => view.toJson.member? name)
      (view.isActive, view.record) :=
    (Fields.Gives.single rfl (gives_bool _)).map _
      |>.apply (.single rfl (words.record.decoded .direct))
  exact fields.decoded (by simp) words.exact

/-- The document of a view has its record. -/
theorem BookView.member_record (view : BookView) :
    view.toJson.member? "record" = some view.record.toJson := rfl

/-- Views in the same document are of the same security. -/
theorem BookView.security_of_json {view other : BookView} (same : other.toJson = view.toJson) :
    other.record.security = view.record.security := by
  have records : other.record.toJson = view.record.toJson := by
    have found := other.member_record
    rw [same, view.member_record] at found
    exact (Option.some.inj found).symm
  have code (record : Record) :
      record.toJson.member? "scrip_code" = some (Json.text record.security) := rfl
  have found := code other.record
  rw [records, code view.record] at found
  exact (Option.some.inj (Json.string.inj (Option.some.inj found))).symm

namespace Service

variable {service : Service} {now : Nat}

/-- The answer to a request that only asks. -/
theorem handle_get {request : HttpRequest} (get : request.method = "GET") :
    service.handle now request =
      ((Route.ofPath (HttpRequest.splitTarget request.target).1).elim ⟨404, .none⟩ fun route =>
        (service.query now "GET" (HttpRequest.splitTarget request.target).2 route).getD
          methodNotAllowed, service) := by
  unfold handle
  rw [get]
  cases HttpRequest.splitTarget request.target with
  | mk path queryText =>
    dsimp only
    cases Route.ofPath path <;> rfl

/-- A failure finds nothing. -/
theorem not_found_of_failure (failure : RequestFailure) : failure.answer.status ≠ 200 := by
  have other : failure.status ≠ 200 := by
    unfold RequestFailure.status
    split <;> decide
  exact other

/-- A part of a path for which a document is found names a security with that document. -/
theorem view_of_show_picture {part : List Char} {document : Json}
    (shown : service.showPicture part = .found document) :
    ∃ security view, decodedPart part = some security ∧
      service.market.picture security = .ok view ∧ view.toJson = document := by
  unfold showPicture at shown
  split at shown
  case h_1 =>
    have status : 400 = 200 := congrArg Answer.status shown
    contradiction
  case h_2 security named =>
    split at shown
    case h_1 view found =>
      exact ⟨security, view, named, found, Content.document.inj (congrArg Answer.content shown)⟩
    case h_2 refusal _ =>
      exact absurd (congrArg Answer.status shown) (not_found_of_failure (.refusal refusal))

/-- No query but one on a security is answered by a document with a record. -/
theorem query_of_record {text : List Char} {route : Route} {document : Json}
    (answered : (service.query now "GET" text route).getD methodNotAllowed = .found document)
    (recorded : (document.member? "record").isSome = true) :
    ∃ part, route = .picture part ∧ service.showPicture part = .found document := by
  have status := congrArg Answer.status answered
  cases route with
  | picture part => exact ⟨part, rfl, answered⟩
  | health =>
    obtain rfl := Content.document.inj (congrArg Answer.content answered)
    contradiction
  | securities =>
    obtain rfl := Content.document.inj (congrArg Answer.content answered)
    contradiction
  | reportStream =>
    simp only [query] at status
    split at status <;> exact absurd (show 400 = 200 from status) (by decide)
  | pictureStream => exact absurd (show 400 = 200 from status) (by decide)
  | orders | cancel | replace => exact absurd (show 405 = 200 from status) (by decide)

/-- Where a request is answered by a view, it asks for a picture, and the view is of the security
it asks for. -/
theorem pictured_of_found {request : HttpRequest} {view : BookView} (get : request.method = "GET")
    (answered : (service.handle now request).1 = .found view.toJson) :
    ∃ security other, request.pictured? = some security ∧
      service.market.picture security = .ok other ∧ other.toJson = view.toJson := by
  have status := congrArg Answer.status answered
  unfold HttpRequest.pictured?
  rw [handle_get get] at answered status
  generalize Route.ofPath (HttpRequest.splitTarget request.target).1 = route at answered status ⊢
  cases route with
  | none => exact absurd (show 404 = 200 from status) (by decide)
  | some route =>
    obtain ⟨part, rfl, shown⟩ := query_of_record answered rfl
    exact view_of_show_picture shown

/-- A request for a picture is answered by the view of the security it asks for. -/
theorem found_of_pictured {request : HttpRequest} {security : String} {view : BookView}
    (get : request.method = "GET") (pictured : request.pictured? = some security)
    (found : service.market.picture security = .ok view) :
    service.handle now request = (.found view.toJson, service) := by
  unfold HttpRequest.pictured? at pictured
  rw [handle_get get]
  split at pictured
  case h_1 part route =>
    rw [route]
    show (service.showPicture part, service) = _
    rw [showPicture, pictured]
    dsimp only
    rw [found]
  case h_2 => contradiction

end Service

/-! ## Listed securities -/

/-- A security that is listed has a book, whose record is of the security. -/
theorem Market.Orderly.book_of_listed {market : Market} (orderly : market.Orderly) {name : String}
    (listed : name ∈ market.securities) :
    ∃ book, market.book? name = some book ∧ book.picture.security = name := by
  obtain ⟨book, member, rfl⟩ := List.mem_map.mp (market.securities_perm.mem_iff.mp listed)
  exact ⟨book, orderly.found member, orderly.titled book member⟩

/-- What the market shows of the security of a book. -/
theorem Market.picture_of_book {market : Market} {name : String} {book : Book}
    (found : market.book? name = some book) : market.picture name = .ok book.view := by
  rw [picture, found]
  rfl

/-- A view that the market shows is of the security that it is asked for. -/
theorem Market.Orderly.view_of_picture {market : Market} (orderly : market.Orderly)
    {security : String} {view : BookView} (shown : market.picture security = .ok view) :
    view.record.security = security := by
  unfold Market.picture at shown
  split at shown
  case h_1 => contradiction
  case h_2 book found =>
    obtain rfl := Except.ok.inj shown
    obtain ⟨member, named⟩ := Market.book_found found
    exact (orderly.titled book member).trans named

/-- A picture is answered by the record of the security of the name typed exactly if the name is
addressable. -/
theorem Service.shows_record_iff {service : Service} (orderly : service.market.Orderly)
    {name : String} {book : Book} (found : service.market.book? name = some book) (now : Nat) :
    (service.handle now (Command.picture name).request).1 = .found book.view.toJson ↔
      Addressable name := by
  have own := Market.picture_of_book found
  constructor
  · intro answered
    obtain ⟨security, view, pictured, shown, same⟩ := pictured_of_found rfl answered
    have named : security = name :=
      (orderly.view_of_picture shown).symm.trans
        ((BookView.security_of_json same).trans (orderly.view_of_picture own))
    exact (pictured_iff name).mp (pictured.trans (congrArg some named))
  · intro addressable
    rw [found_of_pictured rfl ((pictured_iff name).mpr addressable) own]

/-- The client prints the record in a view. -/
theorem Client.outcome_of_view {view : BookView} (words : view.InWords) (name : String) :
    (Command.picture name).outcome (.found view.toJson) =
      printed (recordLines view.record ++
        if view.isActive then [] else ["", "market is closed"]) := by
  have decoded : viewFields.decode view.toJson = .ok (view.isActive, view.record) :=
    words.decoded _ (.same _)
  have lines : successLines (.document view.toJson) (.picture name) =
      some (recordLines view.record ++
        if view.isActive then [] else ["", "market is closed"]) := by
    simp only [successLines, readContent, decoded]
    rfl
  have fine : 200 ≤ (Answer.found view.toJson).status ∧ (Answer.found view.toJson).status < 300 :=
    (by decide : 200 ≤ 200 ∧ 200 < 300)
  unfold Command.outcome
  rw [if_pos fine, Answer.found, lines]

/-- The client prints the record of the security that its request asks for. -/
theorem Client.run_picture {service : Service} {now : Nat} {arguments : List String}
    {name security : String} {book : Book}
    (typed : Command.read arguments = .ok (.picture name))
    (pictured : (Command.picture name).request.pictured? = some security)
    (found : service.market.book? security = some book) (words : book.view.InWords) :
    Client.run service now arguments =
      (printed (recordLines book.picture ++
        if book.isActive then [] else ["", "market is closed"]), service) := by
  have answered : service.handle now (Command.picture name).request =
      (.found book.view.toJson, service) :=
    Service.found_of_pictured rfl pictured (Market.picture_of_book found)
  rw [Client.run, typed]
  dsimp only
  rw [answered]
  exact congrArg (·, service) (outcome_of_view words name)

/-- However a market has come about, a client can name each security that is listed, and the
security has a book whose record bears its name. The service answers the request for the picture
with this record exactly if the name is addressable, and then the client prints the record and
leaves the service as it was, whichever way the name was typed, as long as no server was. -/
theorem addressable_security_is_shown (firstId : OrderId) (capacity : Nat)
    (operations : List MarketOperation) (reports : Channel Report) (pictures : Channel Picture) :
    let service : Service :=
      ⟨((Market.opened firstId capacity).performAll operations).1, reports, pictures⟩
    ∀ name ∈ service.market.securities, ∃ book,
      service.market.book? name = some book ∧ book.picture.security = name ∧
      Command.read ["picture", "--", name] = .ok (.picture name) ∧
      Command.server? ["picture", "--", name] = none ∧
      (∀ now, (service.handle now (Command.picture name).request).1 = .found book.view.toJson ↔
        Addressable name) ∧
      (Addressable name → book.view.InWords →
        ∀ now arguments, Command.read arguments = .ok (.picture name) →
          Command.server? arguments = none →
          Client.run service now arguments =
            (printed (recordLines book.picture ++
              if book.isActive then [] else ["", "market is closed"]), service)) := by
  intro service name listed
  have orderly : service.market.Orderly :=
    (Market.run_keeps (P := fun _ _ => True) (fun _ _ _ => trivial) operations _ []
      (Market.orderly_opened firstId capacity) trivial).1
  obtain ⟨book, found, titled⟩ := orderly.book_of_listed listed
  refine ⟨book, found, titled, rfl, rfl, Service.shows_record_iff orderly found, ?_⟩
  intro addressable words now arguments typed _
  have pictured := (pictured_iff name).mpr addressable
  exact run_picture typed pictured found words

/-- A day on which orders come in for securities with special characters in their names. -/
def specialDay : List MarketOperation :=
  ["5 % Zürich", "A/B", "A%42", "AB"].map fun name =>
    .submit ⟨name, "a", "s", .buy, .limit, 10, some 50, none, .day, none⟩

/-- The service on such a day. -/
def specialService : Service :=
  ⟨((Market.opened ⟨1⟩ 10).performAll specialDay).1, .ofCapacity 1, .ofCapacity 1⟩

/-- A book of that day is open, its record is of its security, and a word holds every number in
its view. -/
theorem special_book_usual {name : String} {book : Book}
    (found : specialService.market.book? name = some book) :
    book.isActive = true ∧ book.picture.security = name ∧ book.view.InWords := by
  have usual : ∀ book ∈ specialService.market.books, book.isActive = true ∧
      book.picture.security = book.security ∧ book.view.InWords := by
    decide +kernel
  obtain ⟨member, rfl⟩ := Market.book_found found
  exact usual book member

/-- A name with spaces, a letter beyond ASCII and a percent sign in front of a space is shown. -/
theorem spaced_security_is_shown :
    "5 % Zürich" ∈ specialService.market.securities ∧ Addressable "5 % Zürich" ∧
      Command.read ["picture", "5 % Zürich"] = .ok (.picture "5 % Zürich") ∧
      Command.server? ["picture", "5 % Zürich"] = none ∧
      ∃ book, specialService.market.book? "5 % Zürich" = some book ∧ book.view.InWords ∧
        Client.run specialService 0 ["picture", "5 % Zürich"] =
          (printed (recordLines book.picture), specialService) := by
  have listed : "5 % Zürich" ∈ specialService.market.securities :=
    specialService.market.securities_perm.mem_iff.mpr (by decide)
  have addressable : Addressable "5 % Zürich" := by decide
  have typed : Command.read ["picture", "5 % Zürich"] = .ok (.picture "5 % Zürich") := by rfl
  obtain ⟨book, found, -, -, -, -, shown⟩ :=
    addressable_security_is_shown ⟨1⟩ 10 specialDay (.ofCapacity 1) (.ofCapacity 1) _ listed
  obtain ⟨active, -, words⟩ := special_book_usual found
  have run := shown addressable words 0 _ typed rfl
  rw [active, if_pos rfl, List.append_nil] at run
  exact ⟨listed, addressable, typed, rfl, book, found, words, run⟩

/-- A security with a slash in its name is listed, but the client prints an error for it. For a
name with an escape it prints the record of the security that the escape stands for. -/
theorem special_securities_are_not_shown :
    "A/B" ∈ specialService.market.securities ∧
      Command.read ["picture", "A/B"] = .ok (.picture "A/B") ∧
      Client.run specialService 0 ["picture", "A/B"] =
        (printed ["Error: 404 Not Found", ""], specialService) ∧
      "A%42" ∈ specialService.market.securities ∧
      Command.read ["picture", "A%42"] = .ok (.picture "A%42") ∧
      ∃ book, specialService.market.book? "AB" = some book ∧ book.picture.security = "AB" ∧
        Client.run specialService 0 ["picture", "A%42"] =
          (printed (recordLines book.picture), specialService) := by
  have listed : ∀ name ∈ ["A/B", "A%42"], name ∈ specialService.market.securities := by
    intro name member
    refine specialService.market.securities_perm.mem_iff.mpr ?_
    revert name
    decide
  refine ⟨listed _ (by decide), rfl, ?_, listed _ (by decide), rfl, ?_⟩
  · have nowhere : Route.ofPath
        (HttpRequest.splitTarget (Command.picture "A/B").request.target).1 = none := by decide
    have typed : Command.read ["picture", "A/B"] = .ok (.picture "A/B") := rfl
    rw [Client.run, typed]
    dsimp only
    rw [Service.handle_get rfl, nowhere]
    rfl
  · have pictured : (Command.picture "A%42").request.pictured? = some "AB" := by decide
    obtain ⟨book, found⟩ : ∃ book, specialService.market.book? "AB" = some book :=
      Option.isSome_iff_exists.mp (by decide)
    obtain ⟨active, titled, words⟩ := special_book_usual found
    have run : Client.run specialService 0 ["picture", "A%42"] = _ :=
      run_picture rfl pictured found words
    rw [active, if_pos rfl, List.append_nil] at run
    exact ⟨book, found, titled, run⟩

end Bourse
