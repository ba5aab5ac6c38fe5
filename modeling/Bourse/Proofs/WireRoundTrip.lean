import Bourse.Proofs.DecodedValues
import Bourse.Wire.Picture
import Bourse.Wire.Report
import Bourse.Wire.Request
import Mathlib.Tactic.MkIffOfInductiveProp

/-!
# Values come back from their texts

Requests, reports, records, counts and pictures are written as text and decoded from it. What is
decoded is what was written, whatever stands in the texts of the value, for every number that a
word holds, and for every order of the members in the document.

An optional part of a request is written as null where it is absent; the text of a report is
left out. Both are decoded as absent.
-/

namespace Bourse

open Json

/-! ## Parts -/

namespace Json

/-- A number that may be missing is decoded from its document. -/
theorem gives_nullable_int {option : Option Int} (fits : ∀ value ∈ option, Word.Fits value) :
    Gives (toOptional toInt64) (nullable int option) option :=
  gives_nullable (fun _ _ null => by cases null) fun value given => gives_int64 (fits value given)

/-- A text is not null. -/
theorem text_ne_null (value : String) : text value ≠ null := nofun

/-- A text loses nothing when it is written. -/
@[simp] theorem exact_text (value : String) : (text value).isExact = true := rfl

/-- Neither does a signed number that a word holds. -/
theorem exact_int {value : Int} (fits : Word.Fits value) : (int value).isExact = true := by
  unfold Word.Fits Word.least Word.greatest at fits
  have small : value.natAbs < Word.limit := by
    unfold Word.limit
    omega
  exact decide_eq_true small

/-- Neither does an unsigned number that a word holds. -/
theorem exact_nat {value : Nat} (below : value < Word.limit) : (nat value).isExact = true :=
  decide_eq_true below

/-- Neither does a number that may be missing. -/
theorem exact_nullable_int {option : Option Int} (fits : ∀ value ∈ option, Word.Fits value) :
    (nullable int option).isExact = true := by
  cases option with
  | none => rfl
  | some value => exact exact_int (fits value rfl)

/-- Neither does an array of values that lose nothing. -/
theorem exact_array {α : Type} {write : α → Json} {values : List α}
    (exact : ∀ value ∈ values, (write value).isExact = true) :
    (array (values.map write)).isExact = true := by
  rw [isExact]
  induction values with
  | nil => rfl
  | cons value values induction =>
    obtain ⟨first, rest⟩ := List.forall_mem_cons.mp exact
    rw [List.map_cons, itemsExact, first, induction rest]
    rfl

/-- Neither does a record, exactly if none of its members does. -/
@[simp] theorem exact_record (members : List (String × Json)) :
    (record members).isExact = members.all fun member => member.2.isExact := by
  rw [record_eq, isExact, members_exact_eq_all, keyed, List.all_map]
  rfl

end Json

/-! ## Attributes -/

/-- A side is found by its name. -/
theorem Side.listed (side : Side) : Side.wireNames.lookup side.wireName = some side := by
  cases side <;> rfl

/-- A type of orders is found by its name. -/
theorem OrderType.listed (type : OrderType) :
    OrderType.wireNames.lookup type.wireName = some type := by
  cases type <;> rfl

/-- A time in force is found by its name. -/
theorem TimeInForce.listed (time : TimeInForce) :
    TimeInForce.wireNames.lookup time.wireName = some time := by
  cases time <;> rfl

/-- A kind of reports is found by its name. -/
theorem ReportKind.listed (kind : ReportKind) :
    ReportKind.wireNames.lookup kind.wireName = some kind := by
  cases kind <;> rfl

/-- A trend is found by its name. -/
theorem Trend.listed (trend : Trend) : Trend.wireNames.lookup trend.wireName = some trend := by
  cases trend <;> rfl

/-- A side loses nothing when it is written. -/
@[simp] theorem Side.exact (side : Side) : side.toJson.isExact = true := rfl

/-- Neither does a type of orders. -/
@[simp] theorem OrderType.exact (type : OrderType) : type.toJson.isExact = true := rfl

/-- Neither does a time in force. -/
@[simp] theorem TimeInForce.exact (time : TimeInForce) : time.toJson.isExact = true := rfl

/-- Neither does a kind of reports. -/
@[simp] theorem ReportKind.exact (kind : ReportKind) : kind.toJson.isExact = true := rfl

/-- Neither does a trend. -/
@[simp] theorem Trend.exact (trend : Trend) : trend.toJson.isExact = true := rfl

/-- Neither does an identifier. -/
@[simp] theorem OrderId.exact (id : OrderId) : id.toJson.isExact = true :=
  exact_nat id.value.toNat_lt

/-- An identifier is decoded from its document. -/
theorem OrderId.given (id : OrderId) : Gives OrderId.ofJson id.toJson id := by
  have given := (gives_nat64 id.value.toNat_lt).map fun value => (⟨value.toUInt64⟩ : OrderId)
  rwa [show (⟨id.value.toNat.toUInt64⟩ : OrderId) = id by simp] at given

/-! ## Requests -/

/-- A word holds every number of the request. -/
@[mk_iff]
structure NewOrder.InWords (request : NewOrder) : Prop where
  quantity : Word.Fits request.quantity
  price : ∀ value ∈ request.price, Word.Fits value
  stopPrice : ∀ value ∈ request.stopPrice, Word.Fits value
  disclosed : ∀ value ∈ request.disclosed, Word.Fits value

instance (request : NewOrder) : Decidable request.InWords :=
  decidable_of_iff' _ (NewOrder.inWords_iff request)

/-- The document of a request for a new order within words loses nothing when it is written. -/
theorem NewOrder.InWords.exact {request : NewOrder} (words : request.InWords) :
    request.toJson.isExact = true := by
  simp [toJson, exact_int words.quantity, exact_nullable_int words.price,
    exact_nullable_int words.stopPrice, exact_nullable_int words.disclosed]

/-- The request is decoded from it. -/
theorem NewOrder.InWords.decoded {request : NewOrder} (words : request.InWords)
    (route : Json.Route) : Gives (NewOrder.fields route).decode request.toJson request := by
  have fields : (NewOrder.fields route).Gives (fun name => request.toJson.member? name) request :=
    (Fields.Gives.single rfl (gives_text _)).map _
      |>.apply (.single rfl (gives_text _))
      |>.apply (.single rfl (gives_text _))
      |>.apply (.single rfl (gives_name route request.side.listed))
      |>.apply (.single rfl (gives_name route request.type.listed))
      |>.apply (.single rfl (gives_int64 words.quantity))
      |>.apply (.single rfl (gives_nullable_int words.price))
      |>.apply (.single rfl (gives_nullable_int words.stopPrice))
      |>.apply (.single rfl (gives_name route request.timeInForce.listed))
      |>.apply (.single rfl (gives_nullable_int words.disclosed))
  exact fields.decoded (by simp) words.exact

/-- A word holds the quantity of the cancellation. -/
@[mk_iff]
structure Cancellation.InWords (request : Cancellation) : Prop where
  quantity : Word.Fits request.quantity

instance (request : Cancellation) : Decidable request.InWords :=
  decidable_of_iff' _ (Cancellation.inWords_iff request)

/-- The document of a cancellation within words loses nothing when it is written. -/
theorem Cancellation.InWords.exact {request : Cancellation} (words : request.InWords) :
    request.toJson.isExact = true := by
  simp [toJson, exact_int words.quantity]

/-- The cancellation is decoded from it. -/
theorem Cancellation.InWords.decoded {request : Cancellation} (words : request.InWords)
    (route : Json.Route) : Gives (Cancellation.fields route).decode request.toJson request := by
  have fields :
      (Cancellation.fields route).Gives (fun name => request.toJson.member? name) request :=
    (Fields.Gives.single rfl (OrderId.given _)).map _
      |>.apply (.single rfl (gives_text _))
      |>.apply (.single rfl (gives_text _))
      |>.apply (.single rfl (gives_text _))
      |>.apply (.single rfl (gives_text _))
      |>.apply (.single rfl (gives_name route request.side.listed))
      |>.apply (.single rfl (gives_name route request.type.listed))
      |>.apply (.single rfl (gives_int64 words.quantity))
  exact fields.decoded (by simp) words.exact

/-- A word holds every number of the replacement. -/
@[mk_iff]
structure Replacement.InWords (request : Replacement) : Prop where
  quantity : Word.Fits request.quantity
  seenFilled : Word.Fits request.seenFilled
  price : ∀ value ∈ request.price, Word.Fits value
  stopPrice : ∀ value ∈ request.stopPrice, Word.Fits value
  disclosed : ∀ value ∈ request.disclosed, Word.Fits value

instance (request : Replacement) : Decidable request.InWords :=
  decidable_of_iff' _ (Replacement.inWords_iff request)

/-- The document of a replacement within words loses nothing when it is written. -/
theorem Replacement.InWords.exact {request : Replacement} (words : request.InWords) :
    request.toJson.isExact = true := by
  simp [toJson, exact_int words.quantity, exact_int words.seenFilled,
    exact_nullable_int words.price, exact_nullable_int words.stopPrice,
    exact_nullable_int words.disclosed]

/-- The replacement is decoded from it. -/
theorem Replacement.InWords.decoded {request : Replacement} (words : request.InWords)
    (route : Json.Route) : Gives (Replacement.fields route).decode request.toJson request := by
  have fields :
      (Replacement.fields route).Gives (fun name => request.toJson.member? name) request :=
    (Fields.Gives.single rfl (OrderId.given _)).map _
      |>.apply (.single rfl (gives_text _))
      |>.apply (.single rfl (gives_text _))
      |>.apply (.single rfl (gives_text _))
      |>.apply (.single rfl (gives_text _))
      |>.apply (.single rfl (gives_name route request.side.listed))
      |>.apply (.single rfl (gives_name route request.type.listed))
      |>.apply (.single rfl (gives_int64 words.quantity))
      |>.apply (.single rfl (gives_int64 words.seenFilled))
      |>.apply (.single rfl (gives_nullable_int words.price))
      |>.apply (.single rfl (gives_nullable_int words.stopPrice))
      |>.apply (.single rfl (gives_name route request.timeInForce.listed))
      |>.apply (.single rfl (gives_nullable_int words.disclosed))
  exact fields.decoded (by simp) words.exact

/-! ## Reports -/

/-- A word holds every number of the report. -/
@[mk_iff]
structure Report.InWords (report : Report) : Prop where
  price : Word.Fits report.price
  leaves : Word.Fits report.leaves
  filled : Word.Fits report.filled
  averagePrice : Word.Fits report.averagePrice
  lastPrice : Word.Fits report.lastPrice
  lastQuantity : Word.Fits report.lastQuantity

instance (report : Report) : Decidable report.InWords :=
  decidable_of_iff' _ (Report.inWords_iff report)

/-- The document of a report within words loses nothing when it is written. -/
theorem Report.InWords.exact {report : Report} (words : report.InWords) :
    report.toJson.isExact = true := by
  cases given : report.text <;>
    simp [toJson, members, given, exact_int words.price, exact_int words.leaves,
      exact_int words.filled, exact_int words.averagePrice, exact_int words.lastPrice,
      exact_int words.lastQuantity]

/-- The member of the text is there exactly if the report has one. -/
theorem Report.member_text (report : Report) :
    report.toJson.member? "text" = report.text.map Json.text := by
  obtain ⟨_, _, _, _, _, _, _, _, _, _, _, _, _, _, reason⟩ := report
  cases reason <;> rfl

/-- The report is decoded from it. -/
theorem Report.InWords.decoded {report : Report} (words : report.InWords) (route : Json.Route) :
    Gives (Report.fields route).decode report.toJson report := by
  have reason : (Fields.optional "text" toText).Gives
      (fun name => report.toJson.member? name) report.text := by
    have member := report.member_text
    cases given : report.text with
    | none => exact .left_out (by rw [member, given]; rfl)
    | some value =>
      exact .single (by rw [member, given]; rfl) ((gives_text value).present (text_ne_null value))
  have fields : (Report.fields route).Gives (fun name => report.toJson.member? name) report :=
    (Fields.Gives.single rfl (gives_name route report.kind.listed)).map _
      |>.apply (.single rfl (OrderId.given _))
      |>.apply (.single rfl (gives_text _))
      |>.apply (.single rfl (gives_text _))
      |>.apply (.single rfl (gives_text _))
      |>.apply (.single rfl (gives_text _))
      |>.apply (.single rfl (gives_name route report.side.listed))
      |>.apply (.single rfl (gives_name route report.type.listed))
      |>.apply (.single rfl (gives_int64 words.price))
      |>.apply (.single rfl (gives_int64 words.leaves))
      |>.apply (.single rfl (gives_int64 words.filled))
      |>.apply (.single rfl (gives_int64 words.averagePrice))
      |>.apply (.single rfl (gives_int64 words.lastPrice))
      |>.apply (.single rfl (gives_int64 words.lastQuantity))
      |>.apply reason
  refine fields.decoded ?_ words.exact
  cases given : report.text <;> simp [members, given]

/-! ## Records, pictures and counts -/

/-- A word holds every number of the row. -/
@[mk_iff]
structure DepthRow.InWords (row : DepthRow) : Prop where
  buyPrice : Word.Fits row.buy.price
  buyQuantity : Word.Fits row.buy.quantity
  sellPrice : Word.Fits row.sell.price
  sellQuantity : Word.Fits row.sell.quantity

instance (row : DepthRow) : Decidable row.InWords :=
  decidable_of_iff' _ (DepthRow.inWords_iff row)

/-- The document of a row of the depth within words loses nothing when it is written. -/
theorem DepthRow.InWords.exact {row : DepthRow} (words : row.InWords) :
    row.toJson.isExact = true := by
  simp [toJson, exact_int words.buyPrice, exact_int words.buyQuantity,
    exact_int words.sellPrice, exact_int words.sellQuantity]

/-- The row is decoded from it. -/
theorem DepthRow.InWords.decoded {row : DepthRow} (words : row.InWords) :
    Gives DepthRow.fields.decode row.toJson row := by
  have fields : DepthRow.fields.Gives (fun name => row.toJson.member? name) row :=
    (Fields.Gives.single rfl (gives_int64 words.buyPrice)).map _
      |>.apply (.single rfl (gives_int64 words.buyQuantity))
      |>.apply (.single rfl (gives_int64 words.sellPrice))
      |>.apply (.single rfl (gives_int64 words.sellQuantity))
  exact fields.decoded (by simp) words.exact

/-- A word holds every number of the record. -/
@[mk_iff]
structure Record.InWords (record : Record) : Prop where
  openPrice : Word.Fits record.openPrice
  closePrice : Word.Fits record.closePrice
  highPrice : Word.Fits record.highPrice
  lowPrice : Word.Fits record.lowPrice
  trades : Word.Fits record.trades
  volume : Word.Fits record.volume
  value : Word.Fits record.value
  lastQuantity : Word.Fits record.lastQuantity
  lastPrice : Word.Fits record.lastPrice
  totalBuy : Word.Fits record.totalBuy
  totalSell : Word.Fits record.totalSell
  lowerLimit : Word.Fits record.lowerLimit
  upperLimit : Word.Fits record.upperLimit
  weightedAverage : Word.Fits record.weightedAverage
  depth : ∀ row ∈ record.depth.toList, row.InWords

instance (record : Record) : Decidable record.InWords :=
  decidable_of_iff' _ (Record.inWords_iff record)

/-- The document of a record within words loses nothing when it is written. -/
theorem Record.InWords.exact {record : Record} (words : record.InWords) :
    record.toJson.isExact = true := by
  simp [toJson, exact_int words.openPrice, exact_int words.closePrice,
    exact_int words.highPrice, exact_int words.lowPrice, exact_int words.trades,
    exact_int words.volume, exact_int words.value, exact_int words.lastQuantity,
    exact_int words.lastPrice, exact_int words.totalBuy, exact_int words.totalSell,
    exact_int words.lowerLimit, exact_int words.upperLimit, exact_int words.weightedAverage,
    exact_array fun row listed => (words.depth row listed).exact]

/-- The record is decoded from it. -/
theorem Record.InWords.decoded {record : Record} (words : record.InWords) (route : Json.Route) :
    Gives (Record.fields route).decode record.toJson record := by
  have rows : Gives (toVector DepthRow.fields.decode depthLevels)
      (.array (record.depth.toList.map DepthRow.toJson)) record.depth :=
    gives_vector fun row listed => (words.depth row listed).decoded
  have fields : (Record.fields route).Gives (fun name => record.toJson.member? name) record :=
    (Fields.Gives.single rfl (gives_text _)).map _
      |>.apply (.single rfl (gives_int64 words.openPrice))
      |>.apply (.single rfl (gives_int64 words.closePrice))
      |>.apply (.single rfl (gives_int64 words.highPrice))
      |>.apply (.single rfl (gives_int64 words.lowPrice))
      |>.apply (.single rfl (gives_int64 words.trades))
      |>.apply (.single rfl (gives_int64 words.volume))
      |>.apply (.single rfl (gives_int64 words.value))
      |>.apply (.single rfl (gives_int64 words.lastQuantity))
      |>.apply (.single rfl (gives_int64 words.lastPrice))
      |>.apply (.single rfl (gives_int64 words.totalBuy))
      |>.apply (.single rfl (gives_int64 words.totalSell))
      |>.apply (.single rfl (gives_name route record.trend.listed))
      |>.apply (.single rfl (gives_int64 words.lowerLimit))
      |>.apply (.single rfl (gives_int64 words.upperLimit))
      |>.apply (.single rfl (gives_int64 words.weightedAverage))
      |>.apply (.single rfl rows)
  exact fields.decoded (by simp) words.exact

/-- A word holds the number of the picture and every number of its records. -/
@[mk_iff]
structure Picture.InWords (picture : Picture) : Prop where
  sequence : picture.sequence < Word.limit
  records : ∀ record ∈ picture.records, record.InWords

instance (picture : Picture) : Decidable picture.InWords :=
  decidable_of_iff' _ (Picture.inWords_iff picture)

/-- The document of a picture within words loses nothing when it is written. -/
theorem Picture.InWords.exact {picture : Picture} (words : picture.InWords) :
    picture.toJson.isExact = true := by
  simp [toJson, members, exact_nat words.sequence,
    exact_array fun record listed => (words.records record listed).exact]

/-- The picture is decoded from it. -/
theorem Picture.InWords.decoded {picture : Picture} (words : picture.InWords) (route : Json.Route) :
    Gives (Picture.fields route).decode picture.toJson picture := by
  have records : Gives (toList (Record.fields route).decode)
      (.array (picture.records.map Record.toJson)) picture.records :=
    gives_list fun record listed => (words.records record listed).decoded route
  have fields : (Picture.fields route).Gives (fun name => picture.toJson.member? name) picture :=
    (Fields.Gives.single rfl (gives_nat64 words.sequence)).map _
      |>.apply (.single rfl records)
  exact fields.decoded (by simp [members]) words.exact

/-- A word holds every count. -/
@[mk_iff]
structure Counts.InWords (counts : Counts) : Prop where
  buys : counts.buys < Word.limit
  sells : counts.sells < Word.limit
  stopBuys : counts.stopBuys < Word.limit
  stopSells : counts.stopSells < Word.limit

instance (counts : Counts) : Decidable counts.InWords :=
  decidable_of_iff' _ (Counts.inWords_iff counts)

/-- The document of the counts within words loses nothing when it is written. -/
theorem Counts.InWords.exact {counts : Counts} (words : counts.InWords) :
    counts.toJson.isExact = true := by
  simp [toJson, exact_nat words.buys, exact_nat words.sells, exact_nat words.stopBuys,
    exact_nat words.stopSells]

/-- The counts are decoded from it. -/
theorem Counts.InWords.decoded {counts : Counts} (words : counts.InWords) :
    Gives Counts.fields.decode counts.toJson counts := by
  have fields : Counts.fields.Gives (fun name => counts.toJson.member? name) counts :=
    (Fields.Gives.single rfl (gives_nat64 words.buys)).map _
      |>.apply (.single rfl (gives_nat64 words.sells))
      |>.apply (.single rfl (gives_nat64 words.stopBuys))
      |>.apply (.single rfl (gives_nat64 words.stopSells))
  exact fields.decoded (by simp) words.exact

/-! ## Texts -/

/-- The value comes back from the text of its document, in whatever order the members stand. -/
def Json.ComesBack {α : Type} (fields : Fields α) (document : Json) (value : α) : Prop :=
  ∀ other, document.Reordered other → (read? other.compact).map fields.decode = some (.ok value)

/-- What is decoded from every order of a document comes back from every text of it. -/
theorem Json.Gives.comes_back {α : Type} {fields : Fields α} {document : Json} {value : α}
    (gives : Gives fields.decode document value) (exact : document.isExact = true) :
    ComesBack fields document value := by
  intro other reordered
  rw [read_compact (reordered.is_exact_eq.trans exact), Option.map_some, gives other reordered]

/-- Every value comes back from its text, and from the text of every other order of its
members. What is absent from a request is written as null, and a report without a text is
written without the member for it. -/
theorem written_values_come_back :
    (∀ request : NewOrder, request.InWords →
      ComesBack (NewOrder.fields .direct) request.toJson request) ∧
    (∀ request : Cancellation, request.InWords →
      ComesBack (Cancellation.fields .direct) request.toJson request) ∧
    (∀ request : Replacement, request.InWords →
      ComesBack (Replacement.fields .direct) request.toJson request) ∧
    (∀ report : Report, report.InWords →
      ComesBack (Report.fields .direct) report.toJson report) ∧
    (∀ record : Record, record.InWords →
      ComesBack (Record.fields .direct) record.toJson record) ∧
    (∀ counts : Counts, counts.InWords →
      ComesBack Counts.fields counts.toJson counts) ∧
    (∀ picture : Picture, picture.InWords →
      ComesBack (Picture.fields .direct) picture.toJson picture) ∧
    (∀ request : NewOrder,
      request.toJson.member? "price" = some (.nullable .int request.price) ∧
      request.toJson.member? "stop_price" = some (.nullable .int request.stopPrice) ∧
      request.toJson.member? "disclosed_qty" = some (.nullable .int request.disclosed)) ∧
    (∀ request : Replacement,
      request.toJson.member? "price" = some (.nullable .int request.price) ∧
      request.toJson.member? "stop_price" = some (.nullable .int request.stopPrice) ∧
      request.toJson.member? "disclosed_qty" = some (.nullable .int request.disclosed)) ∧
    (∀ report : Report, report.toJson.member? "text" = report.text.map .text) := by
  refine ⟨?orders, ?cancellations, ?replacements, ?reports, ?records, ?counts, ?pictures,
    fun request => ⟨rfl, rfl, rfl⟩, fun request => ⟨rfl, rfl, rfl⟩, Report.member_text⟩
  case orders => exact fun _ words => (words.decoded .direct).comes_back words.exact
  case cancellations => exact fun _ words => (words.decoded .direct).comes_back words.exact
  case replacements => exact fun _ words => (words.decoded .direct).comes_back words.exact
  case reports => exact fun _ words => (words.decoded .direct).comes_back words.exact
  case records => exact fun _ words => (words.decoded .direct).comes_back words.exact
  case counts => exact fun _ words => words.decoded.comes_back words.exact
  case pictures => exact fun _ words => (words.decoded .direct).comes_back words.exact

/-- Texts with every kind of escape and the numbers at both ends of a word come back. -/
theorem extreme_values_come_back :
    let text := "quote \" backslash \\ line \n control \u0001 letter ß sign 😀"
    let order : NewOrder :=
      ⟨text, text, "", .sellShort, .stopLimit, Word.least, some Word.greatest, none,
        .immediateOrCancel, some 0⟩
    let cancellation : Cancellation := ⟨⟨0⟩, text, text, "", text, .buy, .stop, Word.greatest⟩
    let replacement : Replacement :=
      ⟨⟨18446744073709551615⟩, text, text, text, "", .sell, .market, Word.greatest, Word.least,
        none, some Word.least, .day, none⟩
    let report : Report :=
      ⟨.partialFill, ⟨1⟩, text, "", text, text, .sell, .limit, Word.least, Word.greatest, -1, 0, 1,
        10, some text⟩
    let record : Record := { Record.blank text with highPrice := Word.greatest, trend := .down }
    let counts : Counts := ⟨0, 1, 18446744073709551615, 10⟩
    let picture : Picture := ⟨18446744073709551615, [record, Record.blank ""]⟩
    ComesBack (NewOrder.fields .direct) order.toJson order ∧
      ComesBack (Cancellation.fields .direct) cancellation.toJson cancellation ∧
      ComesBack (Replacement.fields .direct) replacement.toJson replacement ∧
      ComesBack (Report.fields .direct) report.toJson report ∧
      ComesBack (Record.fields .direct) record.toJson record ∧
      ComesBack Counts.fields counts.toJson counts ∧
      ComesBack (Picture.fields .direct) picture.toJson picture := by
  obtain ⟨orders, cancellations, replacements, reports, records, counts, pictures, -⟩ :=
    written_values_come_back
  exact ⟨orders _ (by decide), cancellations _ (by decide), replacements _ (by decide),
    reports _ (by decide), records _ (by decide), counts _ (by decide), pictures _ (by decide)⟩

end Bourse
