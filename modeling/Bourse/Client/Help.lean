import Bourse.Text.Align

/-!
# The client's help

A page says what a subcommand is for, how it is called, and what each of its parts
means. The parts of a section stand one to a row, and their meanings in one column
behind the longest part. A part without a meaning keeps the blanks behind it.
-/

namespace Bourse.Client

/-- A part of a command line and its meaning. -/
structure HelpRow where
  part : String
  meaning : String

/-- Rows under a title. -/
structure HelpSection where
  title : String
  rows : List HelpRow

/-- A page of the help. -/
structure HelpPage where
  /-- What the subcommand is for; it may be empty. -/
  purpose : String
  /-- How the subcommand is called. -/
  usage : String
  sections : List HelpSection

/-! ## Layout -/

/-- The width of the longest part. -/
def HelpSection.width (block : HelpSection) : Nat :=
  block.rows.foldl (fun width row => max width row.part.length) 0

/-- The lines of a section. -/
def HelpSection.lines (block : HelpSection) : List String :=
  (block.title ++ ":") :: block.rows.map fun row =>
    "  " ++ Text.alignLeft (block.width + 2) row.part ++ row.meaning

/-- The text of a page: its blocks with an empty line between them. -/
def HelpPage.render (page : HelpPage) : String :=
  let purpose := if page.purpose.isEmpty then [] else [page.purpose]
  let sections := page.sections.map fun block => String.intercalate "\n" block.lines
  String.intercalate "\n\n" (purpose ++ ("Usage: matchbook-cli" ++ page.usage) :: sections) ++ "\n"

/-! ## Parts -/

/-- An option with a letter and a value. -/
def lettered (letter name value meaning : String) : HelpRow :=
  ⟨"-" ++ letter ++ ", --" ++ name ++ " <" ++ value ++ ">", meaning⟩

/-- An option without a letter, which leaves the place of the letter empty. -/
def unlettered (name value meaning : String) : HelpRow :=
  ⟨"    --" ++ name ++ " <" ++ value ++ ">", meaning⟩

/-- The meaning of an option that has a value of its own. -/
def defaultsTo (value : String) : String := "[default: " ++ value ++ "]"

/-- The option that shows the page. -/
def helpRow : HelpRow := ⟨"-h, --help", "Print help"⟩

/-- The options that say for whom and for what an order is. -/
def identityRows : List HelpRow :=
  [lettered "s" "security" "SECURITY" "Security the order trades",
   unlettered "sender" "SENDER" (defaultsTo "cli"),
   lettered "c" "client-order-id" "CLIENT_ORDER_ID" ""]

/-- The option that names an order as its sender last did. -/
def previousRow : HelpRow := unlettered "orig-client-order-id" "ORIG_CLIENT_ORDER_ID" ""

/-- The side and the type of an order. -/
def kindRows : List HelpRow :=
  [unlettered "side" "SIDE" "", lettered "t" "type" "ORDER_TYPE" (defaultsTo "limit")]

/-- The prices of an order and how long it is good. -/
def priceRows : List HelpRow :=
  [lettered "p" "price" "PRICE" "",
   unlettered "stop-price" "STOP_PRICE" "",
   unlettered "tif" "TIF" (defaultsTo "day")]

/-- What a command line has to say about an order. -/
def identityUsage : String := " --security <SECURITY> --client-order-id <CLIENT_ORDER_ID>"

/-- What a command line has to say about an order that is there already. -/
def previousUsage : String :=
  identityUsage ++ " --orig-client-order-id <ORIG_CLIENT_ORDER_ID> --side <SIDE>"

/-- The order that a command line names by its place. -/
def orderSection : HelpSection := ⟨"Arguments", [⟨"<ORDER_ID>", ""⟩]⟩

/-- The options of a page, with the option that shows it at the end. -/
def optionSection (rows : List HelpRow) : HelpSection := ⟨"Options", rows ++ [helpRow]⟩

/-! ## Pages -/

/-- What the subcommands are for. -/
def purposes : List (String × String) :=
  [("new", "Submit a new order"),
   ("cancel", "Cancel a resting order"),
   ("replace", "Cancel/replace a resting order"),
   ("picture", "Market picture of one security"),
   ("securities", ""),
   ("health", ""),
   ("help", "Print this message or the help of the given subcommand(s)")]

/-- What a subcommand is for. -/
def purposeOf (subcommand : String) : String := (purposes.lookup subcommand).getD ""

/-- How a subcommand is called, and the sections of its page. -/
def pageParts : String → String × List HelpSection
  | "new" =>
    (" [OPTIONS]" ++ identityUsage ++ " --side <SIDE> --qty <QTY>",
     [optionSection (identityRows ++ kindRows ++ [lettered "q" "qty" "QTY" ""] ++ priceRows ++
       [unlettered "disclosed-qty" "DISCLOSED_QTY" ""])])
  | "cancel" =>
    (" [OPTIONS]" ++ previousUsage ++ " <ORDER_ID>",
     [orderSection, optionSection (identityRows ++ previousRow :: kindRows)])
  | "replace" =>
    (" [OPTIONS]" ++ previousUsage ++ " --qty <QTY> <ORDER_ID>",
     [orderSection,
      optionSection (identityRows ++ previousRow :: kindRows ++
        [lettered "q" "qty" "QTY" "Quantity still wanted working",
         unlettered "cum-qty" "CUM_QTY" ("Quantity already filled " ++ defaultsTo "0")] ++
        priceRows)])
  | "picture" => (" <SECURITY>", [⟨"Arguments", [⟨"<SECURITY>", ""⟩]⟩, optionSection []])
  | "help" =>
    (" [COMMAND]...", [⟨"Arguments", [⟨"[COMMAND]...", "Print help for the subcommand(s)"⟩]⟩])
  | _ => ("", [optionSection []])

/-- The page of the whole client. -/
def overview : HelpPage where
  purpose := "Command line client for the matchbook exchange service"
  usage := " [OPTIONS] <COMMAND>"
  sections :=
    [⟨"Commands", purposes.map fun (name, purpose) => ⟨name, purpose⟩⟩,
     optionSection [lettered "s" "server" "SERVER" (defaultsTo "http://localhost:8080")]]

/-- The page on a topic: a subcommand, or the whole client. -/
def helpPage : Option String → HelpPage
  | none => overview
  | some subcommand =>
    let (usage, sections) := pageParts subcommand
    ⟨purposeOf subcommand, " " ++ subcommand ++ usage, sections⟩

end Bourse.Client
