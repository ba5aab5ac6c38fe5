import Bourse.Console
import Bourse.Proofs.Consistency
import Bourse.Proofs.Texts
import Mathlib.Data.List.Induction

/-!
# Sessions at the console

What a session does is known from the texts that the console hears: the lines of its input up to
the first one that quits, that one included, or up to the first one that is no text. The market is
led through the commands of these texts in their order, and nothing behind them has any effect.
Besides the reports of the market the console prints the usage, once at first and once for each
text that is no command.

Closing and opening reach every book. So whatever the market was before, after the first command
that opens or closes it all books are as the last one left the market, and after a session that
quits nothing rests or is parked any more.
-/

namespace Bourse

/-! ## Names in any letter case -/

namespace Text

/-- Whether a text is a name in small letters or capitals, with any blanks around it. -/
def Spells (text : String) (name : String) : Prop :=
  ∃ word, Surrounded word text.toList ∧ word.map Char.toLower = name.toList

/-- Apart from the Kelvin sign, a character has its own small letter. -/
theorem lower_char_of_ne {c : Char} (other : c ≠ '\u212A') : lowerChar c = c.toLower :=
  if_neg (by simpa using other)

/-- A name without a `k` is compared as it is spelled: the only character beyond ASCII that is
folded into ASCII is folded into that letter. -/
theorem folded_eq_iff {text name : String}
    (named : (name.toList.all fun c => c.isAlphanum && c != 'k') = true) :
    folded text = name ↔ Spells text name := by
  have plain : ∀ c ∈ name.toList, c.isAlphanum = true ∧ c ≠ 'k' := by
    intro c member
    simpa using List.all_eq_true.mp named c member
  have compared : folded text = name ↔ (trimmed text.toList).map lowerChar = name.toList := by
    rw [folded, ← String.toList_inj, String.toList_ofList]
  rw [compared]
  constructor
  · intro same
    refine ⟨trimmed text.toList, surrounded_trimmed text.toList, ?_⟩
    rw [← same]
    refine List.map_congr_left fun c member => ?_
    have inside : lowerChar c ∈ name.toList := same ▸ List.mem_map_of_mem member
    refine (lower_char_of_ne ?_).symm
    rintro rfl
    exact (plain _ inside).2 rfl
  · rintro ⟨word, surrounded, same⟩
    have letters : ∀ c ∈ word, c.toLower.isAlphanum = true :=
      fun c member => (plain _ (same ▸ List.mem_map_of_mem member)).1
    have unblank : ∀ c ∈ word, isBlank c = false :=
      fun c member => not_blank_of_alphanum (alphanum_of_lower (letters c member))
    rw [(trimmed_eq_iff unblank).mpr surrounded, ← same]
    refine List.map_congr_left fun c member => lower_char_of_ne ?_
    rintro rfl
    exact absurd (letters _ member) (by decide)

end Text

namespace Console

/-! ## Commands -/

/-- Which texts stand for a command. -/
def Command.Means (text : String) : Command → Prop
  | .start => Text.Spells text "start"
  | .stop => Text.Spells text "stop"
  | .quit => Text.Spells text "quit" ∨ Text.Spells text "q"
  | .help => ∀ name ∈ ["start", "stop", "quit", "q"], ¬ Text.Spells text name

/-- A text is taken for the command that it stands for, and for no other. -/
theorem Command.parse_iff {text : String} {command : Command} :
    parse text = command ↔ command.Means text := by
  have start : Text.folded text = "start" ↔ _ := Text.folded_eq_iff (by decide)
  have stop : Text.folded text = "stop" ↔ _ := Text.folded_eq_iff (by decide)
  have quit : Text.folded text = "quit" ↔ _ := Text.folded_eq_iff (by decide)
  have short : Text.folded text = "q" ↔ _ := Text.folded_eq_iff (by decide)
  have means : command.Means text ↔ match command with
      | .start => Text.folded text = "start"
      | .stop => Text.folded text = "stop"
      | .quit => Text.folded text = "quit" ∨ Text.folded text = "q"
      | .help => ∀ name ∈ ["start", "stop", "quit", "q"], Text.folded text ≠ name := by
    cases command <;> simp [Means, start, stop, quit, short]
  rw [means, parse, Text.lookup]
  generalize Text.folded text = name
  by_cases opens : name = "start"
  · have found : names.lookup name = some .start := opens ▸ rfl
    rw [found]
    cases command <;> simp [opens]
  by_cases closes : name = "stop"
  · have found : names.lookup name = some .stop := closes ▸ rfl
    rw [found]
    cases command <;> simp [closes]
  by_cases quits : name = "quit" ∨ name = "q"
  · have found : names.lookup name = some .quit := by
      rcases quits with rfl | rfl <;> rfl
    rw [found]
    cases command <;> rcases quits with rfl | rfl <;> simp
  · obtain ⟨long, brief⟩ := not_or.mp quits
    have found : names.lookup name = none := by
      simp [names, opens, closes, long, brief]
    rw [found]
    cases command <;> simp [opens, closes, long, brief]

/-! ## Lines -/

/-- A line without the carriage return at its end, if it has one. -/
def withoutReturn (line : List UInt8) : List UInt8 :=
  if line.getLast? = some 13 then line.dropLast else line

/-- Whether an input is some lines, each with a line feed behind it, and what stands behind the last
line feed. -/
structure Cut (input : List UInt8) (ended : List (List UInt8)) (last : List UInt8) : Prop where
  parts : input = ended.flatMap (· ++ [10]) ++ last
  ended : ∀ line ∈ ended, 10 ∉ line
  last : 10 ∉ last

/-- Whether an input has these lines. A carriage return in front of a line feed is dropped with it.
What stands behind the last line feed is a line as it is, if there is anything. -/
def SplitInto (input : List UInt8) (lines : List (List UInt8)) : Prop :=
  ∃ ended last, Cut input ended last ∧
    lines = ended.map withoutReturn ++ if last = [] then [] else [last]

/-- A byte that ends nothing is the first one of the line behind it. -/
theorem lines_cons {b : UInt8} {rest : List UInt8} (inside : b ≠ 10)
    (apart : b = 13 → rest.head? ≠ some 10) :
    lines (b :: rest) = match lines rest with
      | [] => [[b]]
      | line :: others => (b :: line) :: others := by
  have behind : ∀ later, b = 13 → rest = 10 :: later → False := by
    rintro later rfl rfl
    exact apart rfl rfl
  exact (lines.eq_3 b rest behind).trans (if_neg inside)

/-- A byte in front of a line stays, unless it is a carriage return with nothing behind it. -/
theorem without_return_cons {b : UInt8} {line : List UInt8} (apart : b = 13 → line ≠ []) :
    withoutReturn (b :: line) = b :: withoutReturn line := by
  cases line with
  | nil =>
    have other : b ≠ 13 := fun same => apart same rfl
    simp [withoutReturn, other]
  | cons second later =>
    rw [withoutReturn, withoutReturn, List.getLast?_cons_cons, List.dropLast_cons_cons]
    split <;> rfl

/-- A line feed ends the line in front of it. -/
theorem lines_ended {line : List UInt8} (whole : 10 ∉ line) (rest : List UInt8) :
    lines (line ++ 10 :: rest) = withoutReturn line :: lines rest := by
  induction line with
  | nil => rfl
  | cons b line induction =>
    obtain ⟨inside, later⟩ := List.ne_and_not_mem_of_not_mem_cons whole
    by_cases returned : b = 13 ∧ line = []
    · obtain ⟨rfl, rfl⟩ := returned
      rfl
    · have apart : b = 13 → line ≠ [] := fun same none => returned ⟨same, none⟩
      have behind : b = 13 → (line ++ 10 :: rest).head? ≠ some 10 := by
        intro same
        obtain ⟨first, others, rfl⟩ := List.exists_cons_of_ne_nil (apart same)
        intro begins
        exact later (Option.some.inj begins ▸ List.mem_cons_self)
      rw [List.cons_append, lines_cons inside.symm behind, induction later,
        without_return_cons apart]

/-- What no line feed ends is one line, if it is anything. -/
theorem lines_unended {last : List UInt8} (whole : 10 ∉ last) :
    lines last = if last = [] then [] else [last] := by
  induction last with
  | nil => rfl
  | cons b rest induction =>
    obtain ⟨inside, later⟩ := List.ne_and_not_mem_of_not_mem_cons whole
    have behind : b = 13 → rest.head? ≠ some 10 :=
      fun _ begins => later (List.mem_of_mem_head? begins)
    rw [lines_cons inside.symm behind, induction later, if_neg (List.cons_ne_nil b rest)]
    cases rest with
    | nil => rfl
    | cons => rfl

/-- Every input can be cut into lines. -/
theorem cut_exists (input : List UInt8) : ∃ ended last, Cut input ended last := by
  induction input with
  | nil => exact ⟨[], [], rfl, nofun, nofun⟩
  | cons b rest induction =>
    obtain ⟨ended, last, rfl, whole, unended⟩ := induction
    by_cases feed : b = 10
    · subst feed
      exact ⟨[] :: ended, last, rfl, List.forall_mem_cons.mpr ⟨nofun, whole⟩, unended⟩
    · cases ended with
      | nil => exact ⟨[], b :: last, rfl, nofun, by simp [Ne.symm feed, unended]⟩
      | cons line ended =>
        obtain ⟨first, others⟩ := List.forall_mem_cons.mp whole
        exact ⟨(b :: line) :: ended, last, rfl,
          List.forall_mem_cons.mpr ⟨by simp [Ne.symm feed, first], others⟩, unended⟩

/-- The lines of an input are the parts that it is cut into, without their returns. -/
theorem Cut.lines_eq {input : List UInt8} {ended : List (List UInt8)} {last : List UInt8}
    (cut : Cut input ended last) :
    lines input = ended.map withoutReturn ++ if last = [] then [] else [last] := by
  obtain ⟨rfl, whole, unended⟩ := cut
  induction ended with
  | nil => exact lines_unended unended
  | cons line ended induction =>
    obtain ⟨first, others⟩ := List.forall_mem_cons.mp whole
    rw [List.flatMap_cons, List.append_assoc, List.append_assoc, List.singleton_append,
      lines_ended first, induction others]
    rfl

/-- An input has its lines and no others. -/
theorem split_iff {input : List UInt8} {other : List (List UInt8)} :
    SplitInto input other ↔ other = lines input := by
  constructor
  · rintro ⟨ended, last, cut, rfl⟩
    exact cut.lines_eq.symm
  · rintro rfl
    obtain ⟨ended, last, cut⟩ := cut_exists input
    exact ⟨ended, last, cut, cut.lines_eq⟩

/-! ## What the console hears -/

/-- How a session ends: with a text that quits, at a line that is no text, or with the input. -/
inductive Ending where
  | quit
  | unreadable
  | exhausted
  deriving DecidableEq, Repr

/-- Which texts the console hears from lines, and how the session ends. -/
inductive Hears : List (List UInt8) → List String → Ending → Prop where
  | quit (before : List String) (last : String) (unheard : List (List UInt8))
      (going : ∀ text ∈ before, Command.parse text ≠ .quit) (quits : Command.parse last = .quit) :
      Hears ((before ++ [last]).map Text.utf8 ++ unheard) (before ++ [last]) .quit
  | unreadable (texts : List String) {line : List UInt8} (unheard : List (List UInt8))
      (going : ∀ text ∈ texts, Command.parse text ≠ .quit) (silent : ∀ text, Text.utf8 text ≠ line) :
      Hears (texts.map Text.utf8 ++ line :: unheard) texts .unreadable
  | exhausted (texts : List String) (going : ∀ text ∈ texts, Command.parse text ≠ .quit) :
      Hears (texts.map Text.utf8) texts .exhausted

/-- The same from one line to the next. -/
def heard : List (List UInt8) → List String × Ending
  | [] => ([], .exhausted)
  | line :: later =>
    match Text.readUtf8? line with
    | none => ([], .unreadable)
    | some text =>
      if Command.parse text = .quit then ([text], .quit)
      else (text :: (heard later).1, (heard later).2)

/-- Nothing is heard behind a text that quits. -/
theorem heard_quit {text : String} (quits : Command.parse text = .quit)
    (unheard : List (List UInt8)) : heard (Text.utf8 text :: unheard) = ([text], .quit) := by
  rw [heard, Text.read_utf8]
  exact if_pos quits

/-- Behind any other text the console goes on to listen. -/
theorem heard_going {text : String} (going : Command.parse text ≠ .quit)
    (later : List (List UInt8)) :
    heard (Text.utf8 text :: later) = (text :: (heard later).1, (heard later).2) := by
  rw [heard, Text.read_utf8]
  exact if_neg going

/-- Bytes that encode no text are read as none. -/
theorem read_none {line : List UInt8} (silent : ∀ text, Text.utf8 text ≠ line) :
    Text.readUtf8? line = none :=
  Option.eq_none_iff_forall_ne_some.mpr fun text read =>
    silent text (Text.eq_of_read_utf8 read).symm

/-- Bytes are no text, or those of one. -/
theorem silent_or_text (line : List UInt8) :
    (∀ text, Text.utf8 text ≠ line) ∨ ∃ text, Text.utf8 text = line := by
  by_cases spoken : ∃ text, Text.utf8 text = line
  · exact .inr spoken
  · exact .inl (not_exists.mp spoken)

/-- Nothing is heard from a line on that is no text. -/
theorem heard_unreadable {line : List UInt8} (silent : ∀ text, Text.utf8 text ≠ line)
    (unheard : List (List UInt8)) : heard (line :: unheard) = ([], .unreadable) := by
  rw [heard, read_none silent]

/-- Texts that do not quit are heard before whatever follows. -/
theorem heard_append {texts : List String} (going : ∀ text ∈ texts, Command.parse text ≠ .quit)
    (later : List (List UInt8)) :
    heard (texts.map Text.utf8 ++ later) = (texts ++ (heard later).1, (heard later).2) := by
  induction texts with
  | nil => rfl
  | cons text texts induction =>
    obtain ⟨first, others⟩ := List.forall_mem_cons.mp going
    rw [List.map_cons, List.cons_append, heard_going first, induction others]
    rfl

/-- What is heard of the later lines is heard behind a text that does not quit. -/
theorem Hears.going {text : String} (going : Command.parse text ≠ .quit)
    {later : List (List UInt8)} {texts : List String} {ending : Ending}
    (hears : Hears later texts ending) :
    Hears (Text.utf8 text :: later) (text :: texts) ending := by
  cases hears with
  | quit before last unheard others quits =>
    exact .quit (text :: before) last unheard (List.forall_mem_cons.mpr ⟨going, others⟩) quits
  | unreadable texts unheard others silent =>
    exact .unreadable (text :: texts) unheard (List.forall_mem_cons.mpr ⟨going, others⟩) silent
  | exhausted texts others =>
    exact .exhausted (text :: texts) (List.forall_mem_cons.mpr ⟨going, others⟩)

/-- What the console hears is what is to be heard. -/
theorem hears_heard (lines : List (List UInt8)) : Hears lines (heard lines).1 (heard lines).2 := by
  induction lines with
  | nil => exact .exhausted [] nofun
  | cons line later induction =>
    rcases silent_or_text line with silent | ⟨text, rfl⟩
    · rw [heard_unreadable silent]
      exact .unreadable [] later nofun silent
    · by_cases quits : Command.parse text = .quit
      · rw [heard_quit quits]
        exact .quit [] text later nofun quits
      · rw [heard_going quits]
        exact induction.going quits

/-- The console hears the same texts from the same lines, and its session ends in the same way. -/
theorem hears_iff {lines : List (List UInt8)} {texts : List String} {ending : Ending} :
    Hears lines texts ending ↔ texts = (heard lines).1 ∧ ending = (heard lines).2 := by
  constructor
  · intro hears
    cases hears with
    | quit _ _ unheard going quits =>
      rw [List.map_append, List.append_assoc, heard_append going, List.map_singleton,
        List.singleton_append, heard_quit quits]
      exact ⟨rfl, rfl⟩
    | unreadable _ unheard going silent =>
      rw [heard_append going, heard_unreadable silent, List.append_nil]
      exact ⟨rfl, rfl⟩
    | exhausted _ going =>
      have whole := heard_append going []
      rw [List.append_nil] at whole
      rw [whole]
      exact ⟨(List.append_nil texts).symm, rfl⟩
  · rintro ⟨rfl, rfl⟩
    exact hears_heard lines

/-! ## What the console does -/

/-- What a command asks of the market. -/
def Command.operations : Command → List MarketOperation
  | .start => [.start]
  | .stop => [.stop]
  | .quit => [.stop]
  | .help => []

/-- Whether a command leaves the market open, if it opens or closes it. -/
def Command.opens? : Command → Option Bool
  | .start => some true
  | .stop => some false
  | .quit => some false
  | .help => none

/-- What comes of a session in which texts are heard. -/
def outcomeOf (market : Market) (texts : List String) (ending : Ending) : Outcome :=
  let commands := texts.map Command.parse
  let (final, effects) := market.performAll (commands.flatMap Command.operations)
  { market := final
    reports := effects.flatMap (·.reports)
    printed := List.replicate (commands.count .help) usage
    continues := ending ≠ .quit }

/-- What comes of a command and of what is done after it. -/
def Outcome.followedBy (outcome later : Outcome) : Outcome :=
  { later with
    reports := outcome.reports ++ later.reports
    printed := outcome.printed ++ later.printed }

/-- The outcome of the first text is followed by that of the others. -/
theorem outcome_of_cons (market : Market) (text : String) (texts : List String) (ending : Ending) :
    outcomeOf market (text :: texts) ending =
      (apply market (Command.parse text)).followedBy
        (outcomeOf (apply market (Command.parse text)).market texts ending) := by
  unfold outcomeOf
  rw [List.map_cons]
  cases Command.parse text with
  | start => rfl
  | stop => rfl
  | quit => rfl
  | help =>
    simp only [List.count_cons_self, List.replicate_succ]
    rfl

/-- A session of one text that quits comes to the outcome of quitting. -/
theorem outcome_of_quit {text : String} (quits : Command.parse text = .quit) (market : Market) :
    outcomeOf market [text] .quit = apply market .quit := by
  rw [outcome_of_cons, quits]
  simp [Outcome.followedBy, outcomeOf, apply, Market.performAll]

/-- A command that does not quit lets the session go on. -/
theorem continues_of_going {command : Command} (going : command ≠ .quit) (market : Market) :
    (apply market command).continues = true := by
  cases command with
  | quit => exact absurd rfl going
  | start | stop | help => rfl

/-- The console does what the texts ask for that it hears. -/
theorem run_lines_eq (market : Market) (lines : List (List UInt8)) :
    runLines market lines = outcomeOf market (heard lines).1 (heard lines).2 := by
  induction lines generalizing market with
  | nil => rfl
  | cons line later induction =>
    rcases silent_or_text line with silent | ⟨text, rfl⟩
    · rw [heard_unreadable silent, runLines, read_none silent]
      rfl
    · by_cases quits : Command.parse text = .quit
      · rw [heard_quit quits, outcome_of_quit quits, runLines, Text.read_utf8]
        simp only [quits]
        rfl
      · rw [heard_going quits, outcome_of_cons, ← induction, runLines, Text.read_utf8]
        simp only [continues_of_going quits]
        rfl

/-! ## What the market is left as -/

/-- What commands that are carried out leave a market as. The last one that opens or closes it
decides, and leaves every book as the market. -/
structure Leaves (market : Market) (commands : List Command) (final : Market) : Prop where
  active : final.isActive = (commands.filterMap Command.opens?).getLast?.getD market.isActive
  uniform : commands.filterMap Command.opens? ≠ [] → final.Uniform

/-- A last command that opens or closes the market leaves it so, with all its books. -/
theorem leaves_of_turn {market final : Market} {commands : List Command} {command : Command}
    (turn : command.opens? = some final.isActive) (uniform : final.Uniform) :
    Leaves market (commands ++ [command]) final := by
  have turns : (commands ++ [command]).filterMap Command.opens? =
      commands.filterMap Command.opens? ++ [final.isActive] := by
    simp [List.filterMap_append, turn]
  refine ⟨?_, fun _ => uniform⟩
  rw [turns, List.getLast?_concat]
  rfl

/-- Commands that are carried out leave the market as the last one makes it that turns it. -/
theorem leaves_performed (market : Market) (commands : List Command) :
    Leaves market commands (market.performAll (commands.flatMap Command.operations)).1 := by
  induction commands using List.reverseRecOn with
  | nil => exact ⟨rfl, fun some => absurd rfl some⟩
  | append_singleton commands last induction =>
    rw [List.flatMap_append, Market.perform_all_append]
    cases last with
    | start => exact leaves_of_turn rfl (Market.uniform_start _)
    | stop => exact leaves_of_turn rfl (Market.uniform_stop _)
    | quit => exact leaves_of_turn rfl (Market.uniform_stop _)
    | help =>
      have same : (commands ++ [Command.help]).filterMap Command.opens? =
          commands.filterMap Command.opens? := by
        simp [List.filterMap_append, Command.opens?]
      exact ⟨same ▸ induction.active, same ▸ induction.uniform⟩

/-- A session that quits leaves the market closed, with every book closed and empty. -/
theorem Hears.leaves_closed {market final : Market} {lines : List (List UInt8)}
    {texts : List String} (hears : Hears lines texts .quit)
    (leaves : Leaves market (texts.map Command.parse) final) :
    final.isActive = false ∧ ∀ book ∈ final.books, book.isActive = false ∧ book.orders = [] := by
  cases hears with
  | quit before last unheard going quits =>
    have turns : ((before ++ [last]).map Command.parse).filterMap Command.opens? =
        (before.map Command.parse).filterMap Command.opens? ++ [false] := by
      rw [List.map_append, List.filterMap_append]
      simp [quits, Command.opens?]
    have uniform : final.Uniform :=
      leaves.uniform (turns ▸ List.append_ne_nil_of_right_ne_nil _ (List.cons_ne_nil false []))
    have closed : final.isActive = false := by
      rw [leaves.active, turns, List.getLast?_concat]
      rfl
    have empty := List.flatMap_eq_nil_iff.mp (uniform.empty closed)
    exact ⟨closed, fun book member =>
      ⟨(uniform.active book member).trans closed, empty book member⟩⟩

/-- A session carries out the commands of the texts that it hears, one after another, and nothing
else. It hears the lines of its input up to the first that quits or that is no text. -/
theorem session_folds_commands (market : Market) (input : List UInt8) :
    (∀ text command, Command.parse text = command ↔ command.Means text) ∧
    (∀ other, SplitInto input other ↔ other = lines input) ∧
    ∃ texts ending,
      (∀ others other, Hears (lines input) others other ↔ others = texts ∧ other = ending) ∧
      let commands := texts.map Command.parse
      let performed := market.performAll (commands.flatMap Command.operations)
      run market input =
        { market := performed.1
          reports := performed.2.flatMap (·.reports)
          printed := usage :: List.replicate (commands.count .help) usage
          continues := ending ≠ .quit } ∧
      performed.1.isActive =
        (commands.filterMap Command.opens?).getLast?.getD market.isActive ∧
      (commands.filterMap Command.opens? ≠ [] → performed.1.Uniform) ∧
      (ending = .quit → performed.1.isActive = false ∧
        ∀ book ∈ performed.1.books, book.isActive = false ∧ book.orders = []) := by
  refine ⟨fun text command => Command.parse_iff, fun other => split_iff, (heard (lines input)).1,
    (heard (lines input)).2, fun others other => hears_iff, ?_⟩
  have leaves := leaves_performed market ((heard (lines input)).1.map Command.parse)
  refine ⟨?outcome, leaves.active, leaves.uniform, ?closed⟩
  case outcome =>
    rw [run, run_lines_eq]
    rfl
  case closed =>
    intro quits
    have hears := hears_heard (lines input)
    rw [quits] at hears
    exact hears.leaves_closed leaves

/-- Two books are closed and emptied by a session that quits, and the command to open the market
that stands behind is not heard. -/
theorem two_open_books_quit :
    let market := ((Market.opened ⟨1⟩ 5).performAll Market.twoOpenBooks).1
    let input := Text.utf8 "start\r\nhalt\n QUIT\nstart\n"
    let session := run market input
    Hears (lines input) ["start", "halt", " QUIT"] .quit ∧
      session.printed = [usage, usage] ∧ session.continues = false ∧
      session.market.isActive = false ∧
      ∀ book ∈ session.market.books, book.isActive = false ∧ book.orders = [] := by
  intro market input session
  have parts : lines input =
      (["start", "halt"] ++ [" QUIT"]).map Text.utf8 ++ [Text.utf8 "start"] := by
    decide
  have going : ∀ text ∈ ["start", "halt"], Command.parse text ≠ .quit :=
    List.forall_mem_cons.mpr ⟨by decide, List.forall_mem_cons.mpr ⟨by decide, nofun⟩⟩
  have hears : Hears (lines input) ["start", "halt", " QUIT"] .quit := by
    rw [parts]
    exact .quit ["start", "halt"] " QUIT" [Text.utf8 "start"] going (by decide)
  obtain ⟨-, -, texts, ending, heard, outcome, -, -, closed⟩ :=
    session_folds_commands market input
  obtain ⟨rfl, rfl⟩ := (heard _ _).mp hears
  have printed := congrArg Outcome.printed outcome
  have left := congrArg Outcome.market outcome
  exact ⟨hears, printed.trans (by decide), congrArg Outcome.continues outcome, left ▸ closed rfl⟩

end Console

end Bourse
