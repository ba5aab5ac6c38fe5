import Bourse.Proofs.StreamEntries
import Bourse.Service.Relay
import Mathlib.Algebra.GroupWithZero.Nat

/-!
# Streams of reports

A channel keeps the newest of what is sent on it and forgets the rest, while a relay takes its
turns whenever it may. What the relay makes of the channel is accounted for item by item and turn
by turn: while the relay goes on, a turn makes the next entry, unless nothing is left.

A turn takes its entry off the front of what the relay has not been through, and no other event
does, so the entries and what is left are always together what was sent since the subscription:
`Accounts`, which each event keeps. Only a client that was lost makes a difference to what is
left, since the relay ends with the item that did not arrive.

A longest run of lost reports has one notice as a rule, but it may have several: what is
overwritten after the first notice and before the next turn goes on with the run. The notices
follow one another directly, and their numbers add up to the run.
-/

namespace Bourse

namespace Channel

variable {α : Type} {channel : Channel α} {before rest : List α}

/-- A subscriber that is not through with everything receives the next item if that is kept, and
learns of all that are gone otherwise. -/
theorem Keeps.receive_some (keeps : channel.Keeps (before ++ rest)) (some : rest ≠ [])
    (position : Nat) :
    ∃ entry : Entry α, ∃ later, rest = entry.items ++ later ∧
      entry.seen = position + rest.length ∧ entry.Timely channel.capacity position ∧
      channel.receive? before.length =
        Option.some (entry.received, before.length + entry.items.length) := by
  have oldest := keeps.oldest
  rw [List.length_append] at oldest
  unfold receive?
  by_cases late : before.length < channel.oldest
  · let lost := rest.length - channel.capacity
    have length : (rest.take lost).length = lost := by
      rw [List.length_take]
      omega
    refine ⟨.run (rest.take lost) (position + rest.length), rest.drop lost,
      (List.take_append_drop ..).symm, rfl, .run ?_ ?_, ?_⟩
    · apply List.ne_nil_of_length_pos
      omega
    · omega
    · rw [if_pos late]
      simp only [Entry.received, Entry.items, length, Option.some.injEq, Prod.mk.injEq,
        Received.lagged.injEq]
      omega
  · obtain ⟨item, later, rfl⟩ := List.exists_cons_of_ne_nil some
    rw [List.length_cons] at oldest
    refine ⟨.item item (position + (item :: later).length), later, rfl, rfl, .item item ?_ ?_, ?_⟩
    · rw [List.length_cons]
      omega
    · rw [List.length_cons]
      omega
    · have next : channel.kept[before.length - channel.oldest]? = Option.some item := by
        rw [keeps.kept, List.getElem?_drop, ← keeps.oldest,
          Nat.add_sub_cancel' (Nat.not_lt.mp late),
          List.getElem?_append_right (Nat.le_refl _), Nat.sub_self]
        rfl
      rw [if_neg late, next]
      rfl

end Channel

/-- Whether a message tells something of the channel. The others are heartbeats and replies. -/
def Message.isNews : Message → Bool
  | .report _ | .picture _ | .error _ => true
  | .ping _ | .pong _ => false

/-- The message of a reply that tells something of the channel, if it is one. -/
def StreamReply.news? : StreamReply → Option Message
  | .message content => if content.isNews then Option.some content else Option.none
  | .none | .pong _ | .ended => Option.none

/-- What a client was told of the channel. -/
def newsOf (written : List StreamReply) : List Message := written.filterMap StreamReply.news?

/-- No frame of a client is replied to with something of the channel. -/
theorem ClientFrame.news_reply (frame : ClientFrame) : frame.reply.news? = none := by
  cases frame with
  | text content =>
    rw [reply]
    split <;> rfl
  | _ => rfl

namespace RelayEvent

variable {α : Type}

/-- The item that an event sends on the channel, if it does. -/
def item? : RelayEvent α → Option α
  | .sent item => some item
  | .abandoned | .lost | .turn | .frame _ | .beat _ => none

/-- The items that are sent on the channel. -/
def itemsAmong (events : List (RelayEvent α)) : List α := events.filterMap item?

/-- How many items have been sent whenever the relay turns to its channel. -/
def turnsAmong : Nat → List (RelayEvent α) → List Nat
  | _, [] => []
  | count, .sent _ :: later => turnsAmong (count + 1) later
  | count, .turn :: later => count :: turnsAmong count later
  | count, _ :: later => turnsAmong count later

/-- Whether an event may end the relay. -/
def mayEnd : RelayEvent α → Bool
  | .abandoned | .lost => true
  | .frame taken => taken.reply == .ended
  | .sent _ | .turn | .beat _ => false

/-- The item of the first event comes before those of the later ones. -/
theorem items_cons (event : RelayEvent α) (later : List (RelayEvent α)) :
    itemsAmong (event :: later) = event.item?.toList ++ itemsAmong later := by
  rw [itemsAmong, List.filterMap_cons]
  cases event <;> rfl

/-- The turns of the first event come before the later ones, which count its item. -/
theorem turns_cons (count : Nat) (event : RelayEvent α) (later : List (RelayEvent α)) :
    turnsAmong count (event :: later) =
      turnsAmong count [event] ++ turnsAmong (count + event.item?.toList.length) later := by
  cases event <;> rfl

end RelayEvent

namespace Relay

variable {α : Type} {toMessage : Received α → Option Message} {relay : Relay α}
  {earlier sent : List α} {turns : List Nat} {entries : List (Entry α)}

/-- The entries account for what was sent since the subscription as far as the relay got, and for
what its client was told of the channel. -/
structure Accounts (toMessage : Received α → Option Message) (earlier : List α) (relay : Relay α)
    (sent : List α) (turns : List Nat) (entries : List (Entry α)) : Prop where
  keeps : relay.channel.Keeps (earlier ++ sent)
  covered : entries.flatMap Entry.items <+: sent
  place : relay.isOpen = true →
    relay.place = earlier.length + (entries.flatMap Entry.items).length
  /-- The turns up to the end of the relay, which are all of them while it goes on. -/
  logs : ∃ taken, taken <+: turns ∧ (relay.isOpen = true → taken = turns) ∧
    Entry.Logs relay.channel.capacity 0 taken entries
  told : newsOf relay.written = entries.filterMap fun entry => toMessage entry.received

/-- Nothing is to account for when a client subscribes. -/
theorem accounts_subscribed {channel : Channel α} (keeps : channel.Keeps earlier) :
    (subscribed channel).Accounts toMessage earlier [] [] [] where
  keeps := by rwa [List.append_nil]
  covered := List.nil_prefix
  place := fun _ => keeps.sent
  logs := ⟨[], List.prefix_rfl, fun _ => rfl, .start 0⟩
  told := rfl

/-- What is written besides the channel's messages changes nothing, nor does the end of the relay
or a change of its client or its senders. -/
theorem Accounts.same (accounts : relay.Accounts toMessage earlier sent turns entries)
    {next : Relay α} (channel : next.channel = relay.channel)
    (stays : next.isOpen = true → relay.isOpen = true ∧ next.place = relay.place)
    (told : newsOf next.written = newsOf relay.written) :
    next.Accounts toMessage earlier sent turns entries where
  keeps := channel ▸ accounts.keeps
  covered := accounts.covered
  place := fun going => (stays going).2.trans (accounts.place (stays going).1)
  logs := by
    obtain ⟨taken, front, all, logs⟩ := accounts.logs
    exact ⟨taken, front, fun going => all (stays going).1, channel ▸ logs⟩
  told := told.trans accounts.told

/-- Another item is left for the relay. -/
theorem Accounts.more (accounts : relay.Accounts toMessage earlier sent turns entries) (item : α) :
    ({ relay with channel := relay.channel.send item } : Relay α).Accounts toMessage earlier
      (sent ++ [item]) turns entries where
  keeps := List.append_assoc earlier sent [item] ▸ accounts.keeps.send item
  covered := accounts.covered.trans (List.prefix_append ..)
  place := accounts.place
  logs := accounts.logs
  told := accounts.told

/-- The relay turned to a channel that it was through with. -/
theorem Accounts.idled (accounts : relay.Accounts toMessage earlier sent turns entries)
    (going : relay.isOpen = true) (through : entries.flatMap Entry.items = sent) :
    relay.Accounts toMessage earlier sent (turns ++ [sent.length]) entries :=
  { accounts with
    logs := by
      obtain ⟨taken, -, all, logs⟩ := accounts.logs
      obtain rfl := all going
      have idled := logs.idled
      rw [through, Nat.zero_add] at idled
      exact ⟨_, List.prefix_rfl, fun _ => rfl, idled⟩ }

/-- A turn is not taken once the relay has ended, nor is one that ends it. -/
theorem Accounts.ended (accounts : relay.Accounts toMessage earlier sent turns entries)
    {next : Relay α} (channel : next.channel = relay.channel) (shut : next.isOpen = false)
    (told : newsOf next.written = newsOf relay.written) (seen : Nat) :
    next.Accounts toMessage earlier sent (turns ++ [seen]) entries where
  keeps := channel ▸ accounts.keeps
  covered := accounts.covered
  place := fun going => absurd (shut.symm.trans going) Bool.false_ne_true
  logs := by
    obtain ⟨taken, front, -, logs⟩ := accounts.logs
    exact ⟨taken, front.trans (List.prefix_append ..),
      fun going => absurd (shut.symm.trans going) Bool.false_ne_true, channel ▸ logs⟩
  told := told.trans accounts.told

/-- The relay took an entry off the front of what is left for it, and told its client what the
entry makes. -/
theorem Accounts.entered (accounts : relay.Accounts toMessage earlier sent turns entries)
    {next : Relay α} {entry : Entry α} {later : List α} (going : relay.isOpen = true)
    (front : sent = entries.flatMap Entry.items ++ (entry.items ++ later))
    (seen : entry.seen = sent.length)
    (timely : entry.Timely relay.channel.capacity (entries.flatMap Entry.items).length)
    (channel : next.channel = relay.channel) (place : next.place = relay.place + entry.items.length)
    (told : newsOf next.written = newsOf relay.written ++ (toMessage entry.received).toList) :
    next.Accounts toMessage earlier sent (turns ++ [sent.length]) (entries ++ [entry]) where
  keeps := channel ▸ accounts.keeps
  covered := by
    rw [List.flatMap_append, List.flatMap_singleton, front, ← List.append_assoc]
    exact List.prefix_append ..
  place := by
    intro _
    rw [place, accounts.place going, List.flatMap_append, List.flatMap_singleton,
      List.length_append, Nat.add_assoc]
  logs := by
    obtain ⟨taken, -, all, logs⟩ := accounts.logs
    obtain rfl := all going
    rw [channel, ← seen]
    exact ⟨_, List.prefix_rfl, fun _ => rfl, logs.turned (by rwa [Nat.zero_add])⟩
  told := by
    rw [told, accounts.told, List.filterMap_append]
    cases made : toMessage entry.received <;> simp [made]

/-- A turn that the relay takes accounts for what it receives. A message that does not arrive ends
the relay, and is not accounted for. -/
theorem Accounts.turn (accounts : relay.Accounts toMessage earlier sent turns entries)
    (tells : ∀ received, ∀ message ∈ toMessage received, message.isNews = true)
    (going : relay.isOpen = true) :
    ∃ later, (relay.turn toMessage).Accounts toMessage earlier sent (turns ++ [sent.length])
      (entries ++ later) := by
  have keeps := accounts.keeps
  obtain ⟨rest, front⟩ := accounts.covered
  have place := accounts.place going
  rw [← List.length_append] at place
  rw [← front, ← List.append_assoc] at keeps
  unfold Relay.turn
  by_cases nothing : rest = []
  · rw [nothing, List.append_nil] at keeps front
    refine ⟨[], ?_⟩
    rw [place, keeps.receive_none, List.append_nil]
    dsimp only
    split
    · exact accounts.idled going front
    · refine accounts.ended ?_ ?_ ?_ _ <;> rfl
  · obtain ⟨entry, later, rfl, seen, timely, receives⟩ :=
      keeps.receive_some nothing (entries.flatMap Entry.items).length
    rw [← List.length_append, front] at seen
    rw [place, receives, ← place]
    dsimp only
    cases made : toMessage entry.received with
    | none =>
      refine ⟨[entry], accounts.entered going front.symm seen timely rfl rfl ?_⟩
      rw [made, Option.toList_none, List.append_nil]
    | some message =>
      dsimp only
      unfold write
      split
      · refine ⟨[entry], accounts.entered going front.symm seen timely rfl rfl ?_⟩
        simp [newsOf, made, StreamReply.news?, tells _ message made]
      · refine ⟨[], ?_⟩
        rw [List.append_nil]
        refine accounts.ended ?_ ?_ ?_ _ <;> rfl

/-- A message that is no news tells nothing of the channel, whether it arrives or not. -/
theorem Accounts.wrote (accounts : relay.Accounts toMessage earlier sent turns entries)
    {message : Message} (other : message.isNews = false) :
    (relay.write message).Accounts toMessage earlier sent turns entries := by
  unfold write
  split
  · refine accounts.same rfl (fun going => ⟨going, rfl⟩) ?_
    simp [newsOf, StreamReply.news?, other]
  · exact accounts.same rfl nofun rfl

/-- Neither does a reply to a frame. -/
theorem Accounts.answered (accounts : relay.Accounts toMessage earlier sent turns entries)
    (frame : ClientFrame) :
    (relay.answer frame.reply).Accounts toMessage earlier sent turns entries := by
  have other := frame.news_reply
  have replied : ({ relay with written := relay.written ++ [frame.reply] } : Relay α).Accounts
      toMessage earlier sent turns entries := by
    refine accounts.same rfl (fun going => ⟨going, rfl⟩) ?_
    simp [newsOf, other]
  unfold answer
  split
  · exact accounts
  · exact accounts.same rfl nofun rfl
  · split
    · exact replied
    · exact accounts

/-- Each event leaves the relay accounted for. -/
theorem Accounts.step (accounts : relay.Accounts toMessage earlier sent turns entries)
    (tells : ∀ received, ∀ message ∈ toMessage received, message.isNews = true)
    (event : RelayEvent α) :
    ∃ later, (relay.step toMessage event).Accounts toMessage earlier (sent ++ event.item?.toList)
      (turns ++ RelayEvent.turnsAmong sent.length [event]) (entries ++ later) := by
  have idle {next : Relay α} (after : next.Accounts toMessage earlier sent turns entries) :
      next.Accounts toMessage earlier (sent ++ []) (turns ++ []) (entries ++ []) := by
    rwa [List.append_nil, List.append_nil, List.append_nil]
  cases event with
  | sent item =>
    refine ⟨[], ?_⟩
    rw [RelayEvent.turnsAmong, RelayEvent.turnsAmong, List.append_nil, List.append_nil]
    exact accounts.more item
  | turn =>
    rw [RelayEvent.item?, Option.toList_none, List.append_nil, Relay.step]
    split
    case isTrue going => exact accounts.turn tells going
    case isFalse shut =>
      refine ⟨[], ?_⟩
      rw [List.append_nil]
      exact accounts.ended rfl (Bool.eq_false_iff.mpr shut) rfl sent.length
  | abandoned => exact ⟨[], idle (accounts.same rfl (fun going => ⟨going, rfl⟩) rfl)⟩
  | lost => exact ⟨[], idle (accounts.same rfl (fun going => ⟨going, rfl⟩) rfl)⟩
  | frame frame =>
    refine ⟨[], idle ?_⟩
    rw [Relay.step]
    split
    · exact accounts.answered frame
    · exact accounts
  | beat timestamp =>
    refine ⟨[], idle ?_⟩
    rw [Relay.step]
    split
    · exact accounts.wrote rfl
    · exact accounts

/-- So do any number of events. -/
theorem Accounts.run (accounts : relay.Accounts toMessage earlier sent turns entries)
    (tells : ∀ received, ∀ message ∈ toMessage received, message.isNews = true)
    (events : List (RelayEvent α)) :
    ∃ later, (relay.run toMessage events).Accounts toMessage earlier
      (sent ++ RelayEvent.itemsAmong events)
      (turns ++ RelayEvent.turnsAmong sent.length events) (entries ++ later) := by
  induction events generalizing relay sent turns entries with
  | nil =>
    refine ⟨[], ?_⟩
    rw [RelayEvent.turnsAmong, RelayEvent.itemsAmong, List.filterMap_nil, List.append_nil,
      List.append_nil, List.append_nil]
    exact accounts
  | cons event events induction =>
    obtain ⟨first, stepped⟩ := accounts.step tells event
    obtain ⟨later, ran⟩ := induction stepped
    refine ⟨first ++ later, ?_⟩
    rw [RelayEvent.items_cons, RelayEvent.turns_cons, ← List.append_assoc, ← List.append_assoc,
      ← List.append_assoc, ← List.length_append]
    exact ran

/-- A message leaves the channel of a relay as it is. -/
@[simp] theorem channel_write (relay : Relay α) (message : Message) :
    (relay.write message).channel = relay.channel := by
  unfold write
  split <;> rfl

/-- So does a reply to the client. -/
@[simp] theorem channel_answer (relay : Relay α) (reply : StreamReply) :
    (relay.answer reply).channel = relay.channel := by
  unfold answer
  split
  · rfl
  · rfl
  · split <;> rfl

/-- So does a turn. -/
@[simp] theorem channel_turn (relay : Relay α) :
    (relay.turn toMessage).channel = relay.channel := by
  unfold turn
  cases relay.channel.receive? relay.place with
  | none =>
    dsimp only
    split <;> rfl
  | some result =>
    obtain ⟨received, place⟩ := result
    dsimp only
    cases toMessage received with
    | none => rfl
    | some message => exact channel_write ..

/-- The channel fills whatever the relay does. -/
theorem channel_step (relay : Relay α) (event : RelayEvent α) :
    (relay.step toMessage event).channel = relay.channel.sendAll event.item?.toList := by
  cases event with
  | sent item => rfl
  | abandoned => rfl
  | lost => rfl
  | turn =>
    rw [step, apply_ite channel, channel_turn, ite_self]
    rfl
  | frame frame =>
    rw [step, apply_ite channel, channel_answer, ite_self]
    rfl
  | beat timestamp =>
    rw [step, apply_ite channel, channel_write, ite_self]
    rfl

/-- After events, all their items have been sent on the channel, and nothing else. -/
theorem channel_run (relay : Relay α) (events : List (RelayEvent α)) :
    (relay.run toMessage events).channel =
      relay.channel.sendAll (RelayEvent.itemsAmong events) := by
  induction events generalizing relay with
  | nil => rfl
  | cons event events induction =>
    have split := induction (relay.step toMessage event)
    rw [channel_step, Channel.sendAll, Channel.sendAll, ← List.foldl_append] at split
    rw [RelayEvent.items_cons]
    exact split

/-- A relay that is through with its channel leaves nothing. -/
theorem Accounts.nothing_left (accounts : relay.Accounts toMessage earlier sent turns entries)
    {left : List α} (front : entries.flatMap Entry.items ++ left = sent)
    (going : relay.isOpen = true) (through : relay.channel.receive? relay.place = none) :
    left = [] := by
  by_contra some
  have keeps := accounts.keeps
  rw [← front, ← List.append_assoc] at keeps
  obtain ⟨entry, later, -, -, -, receives⟩ := keeps.receive_some some 0
  rw [List.length_append, ← accounts.place going, through] at receives
  contradiction

/-- The relay goes on, its client is there and its channel has senders. -/
structure Live (relay : Relay α) : Prop where
  fed : relay.isFed = true
  heard : relay.isHeard = true
  going : relay.isOpen = true

/-- A live relay writes what it has to write and goes on. -/
theorem Live.write (live : relay.Live) (message : Message) :
    relay.write message = { relay with written := relay.written ++ [.message message] } :=
  if_pos live.heard

/-- A live relay that receives something writes the message that it makes. -/
theorem Live.turn (live : relay.Live) {received : Received α} {next : Nat}
    (receives : relay.channel.receive? relay.place = some (received, next)) :
    relay.turn toMessage = { relay with
      place := next
      written := relay.written ++ ((toMessage received).map .message).toList } := by
  rw [Relay.turn, receives]
  dsimp only
  cases toMessage received with
  | none => rw [Option.map_none, Option.toList_none, List.append_nil]
  | some message => exact if_pos live.heard

/-- A live relay that receives nothing waits. -/
theorem Live.turn_none (live : relay.Live)
    (nothing : relay.channel.receive? relay.place = none) : relay.turn toMessage = relay := by
  rw [Relay.turn, nothing]
  exact if_pos live.fed

/-- A relay is live until something happens that may end it. -/
theorem Live.step (live : relay.Live) {event : RelayEvent α} (harmless : event.mayEnd = false) :
    (relay.step toMessage event).Live := by
  cases event with
  | sent item => exact { live with }
  | abandoned => contradiction
  | lost => contradiction
  | turn =>
    rw [Relay.step, if_pos live.going]
    cases receives : relay.channel.receive? relay.place with
    | none => rwa [live.turn_none receives]
    | some result =>
      rw [live.turn receives]
      exact { live with }
  | frame frame =>
    rw [Relay.step, if_pos live.going]
    unfold answer
    split
    · exact live
    case h_2 ended =>
      rw [RelayEvent.mayEnd, ended] at harmless
      contradiction
    · rw [if_pos live.heard]
      exact { live with }
  | beat timestamp =>
    rw [Relay.step, if_pos live.going, live.write]
    exact { live with }

/-- A live relay stays so under events none of which may end it. -/
theorem Live.run (live : relay.Live) {events : List (RelayEvent α)}
    (harmless : ∀ event ∈ events, event.mayEnd = false) : (relay.run toMessage events).Live := by
  induction events generalizing relay with
  | nil => exact live
  | cons event events induction =>
    obtain ⟨first, later⟩ := List.forall_mem_cons.mp harmless
    exact induction (live.step first) later

/-- A live relay that takes turns until it is through with its channel writes the messages of all
that is left for it. -/
theorem Live.turns_write_pending (live : relay.Live) {count : Nat}
    (enough : (relay.channel.pending relay.place).length ≤ count) :
    (relay.run toMessage (List.replicate count .turn)).written = relay.written ++
      ((relay.channel.pending relay.place).filterMap toMessage).map .message := by
  induction count generalizing relay with
  | zero =>
    rw [List.eq_nil_of_length_eq_zero (Nat.le_zero.mp enough)]
    exact (List.append_nil _).symm
  | succ count induction =>
    rw [List.replicate_succ, Relay.run, List.foldl_cons, ← Relay.run, Relay.step,
      if_pos live.going]
    cases receives : relay.channel.receive? relay.place with
    | none =>
      rw [live.turn_none receives, induction live]
      rw [Channel.pending_of_none receives]
      exact Nat.zero_le _
    | some result =>
      obtain ⟨received, next⟩ := result
      rw [Channel.pending_of_receive receives] at enough
      have after : Live { relay with
          place := next
          written := relay.written ++ ((toMessage received).map .message).toList } :=
        { live with }
      rw [live.turn receives, induction after (Nat.le_of_succ_le_succ enough),
        Channel.pending_of_receive receives, List.filterMap_cons]
      cases toMessage received <;> simp

end Relay

/-- The message that a client is to be sent for an entry if it asked for the reports of one
sender, or of all. -/
def Entry.told (sender : Option String) : Entry Report → Option Message
  | .item report _ => if ∀ name ∈ sender, report.sender = name then some (.report report) else none
  | .run lost _ => some (.error (Text.natural lost.length ++ " messages dropped"))

/-- The message about an entry is what the client is told of it. -/
theorem report_message_eq_told (sender : Option String) (entry : Entry Report) :
    reportMessage? sender entry.received = entry.told sender := by
  cases entry with
  | run lost seen => rfl
  | item report seen =>
    have same : sender.all (· == report.sender) =
        decide (∀ name ∈ sender, report.sender = name) := by
      cases sender with
      | none => simp
      | some name => simp [eq_comm, beq_eq_decide]
    simp only [Entry.received, reportMessage?, Entry.told, same, decide_eq_true_eq]

/-- Every message about something received is news. -/
theorem report_message_is_news (sender : Option String) (received : Received Report) :
    ∀ message ∈ reportMessage? sender received, message.isNews = true := by
  intro message made
  cases received with
  | lagged lost =>
    obtain rfl := Option.some.inj made
    rfl
  | item report =>
    obtain ⟨-, rfl⟩ := by simpa [reportMessage?] using made
    rfl

/-- A run is told by a notice of its length. -/
theorem told_of_runs (sender : Option String) {notices : List (Entry Report)}
    (runs : ∀ notice ∈ notices, notice.isRun = true) :
    notices.filterMap (Entry.told sender) =
      (notices.map (·.items.length)).map droppedNotice := by
  induction notices with
  | nil => rfl
  | cons notice notices induction =>
    obtain ⟨first, others⟩ := List.forall_mem_cons.mp runs
    cases notice with
    | item report seen => contradiction
    | run lost seen => exact congrArg (droppedNotice lost.length :: ·) (induction others)

/-- What becomes of the reports that are sent while a client is subscribed to them, or to those of
one sender, on a channel of a capacity. -/
structure AccountedFor (capacity : Nat) (sender : Option String)
    (events : List (RelayEvent Report)) (relay : Relay Report) (entries : List (Entry Report))
    (left : List Report) : Prop where
  /-- The reports sent since the subscription are those of the entries, in their order, and those
  that are left. -/
  all : RelayEvent.itemsAmong events = entries.flatMap Entry.items ++ left
  /-- Turn by turn, the next entry was made, or nothing was left. Only a relay that has ended
  takes no more turns. -/
  turns : ∃ taken, taken <+: RelayEvent.turnsAmong 0 events ∧
    (relay.isOpen = true → taken = RelayEvent.turnsAmong 0 events) ∧
    Entry.Logs capacity 0 taken entries
  /-- The client is told of a report that it asked for as it was sent, of no other report, and of
  a run its exact length. -/
  told : newsOf relay.written = entries.filterMap (Entry.told sender)
  /-- No report of another sender is written. -/
  own : ∀ report, .message (.report report) ∈ relay.written →
    ∀ name ∈ sender, report.sender = name
  /-- A longest run of lost reports, between reports that were received or at an end, is told by
  notices that follow one another directly, and their numbers add up to its length. -/
  runs : ∀ front lost back, entries.flatMap Entry.fates = front ++ (lost.map (·, false) ++ back) →
    (∀ item ∈ front.getLast?, item.2 = true) → (∀ item ∈ back.head?, item.2 = true) →
    ∃ early notices late, entries = early ++ (notices ++ late) ∧
      early.flatMap Entry.fates = front ∧ notices.flatMap Entry.items = lost ∧
      late.flatMap Entry.fates = back ∧
      newsOf relay.written = early.filterMap (Entry.told sender) ++
        ((notices.map (·.items.length)).map droppedNotice ++
          late.filterMap (Entry.told sender)) ∧
      (notices.map (·.items.length)).sum = lost.length
  /-- A further notice of one run is for as many reports as were sent between the two turns. -/
  further : ∀ early first second late seen next,
    entries = early ++ .run first seen :: .run second next :: late → next = seen + second.length
  /-- A stream that goes on and is through with its channel leaves nothing. -/
  through : relay.isOpen = true → relay.channel.receive? relay.place = none → left = []
  /-- It goes on as long as its client is there, its channel has senders and no frame ends it, and
  with enough turns it writes the messages of all that is left for it. -/
  delivers : (∀ event ∈ events, event.mayEnd = false) → relay.isOpen = true ∧
    ∀ count, (relay.channel.pending relay.place).length ≤ count →
      (relay.run (reportMessage? sender) (List.replicate count .turn)).written = relay.written ++
        ((relay.channel.pending relay.place).filterMap (reportMessage? sender)).map .message

/-- However reports are sent and turns are taken, whatever the capacity of the channel, as long as
there is one, and whatever else happens on the stream, every report is accounted for. -/
theorem streams_account_for_reports {wanted : Nat} {empty : Channel Report}
    (made : Channel.make wanted = .ok empty) (earlier : List Report) (sender : Option String)
    (events : List (RelayEvent Report)) :
    let relay := (Relay.subscribed (empty.sendAll earlier)).run (reportMessage? sender) events
    ∃ entries left, AccountedFor wanted.nextPowerOfTwo sender events relay entries left := by
  intro relay
  obtain ⟨-, -, rfl⟩ := Channel.make_eq_ok_iff.mp made
  have keeps : ((Channel.ofCapacity wanted).sendAll earlier).Keeps earlier :=
    (Channel.keeps_of_capacity wanted).send_all earlier
  obtain ⟨entries, accounts⟩ := (Relay.accounts_subscribed keeps).run
    (report_message_is_news sender) events
  simp only [List.nil_append, List.length_nil] at accounts
  have capacity : relay.channel.capacity = wanted.nextPowerOfTwo := by
    rw [Relay.channel_run, Channel.capacity_send_all]
    exact Channel.capacity_send_all ..
  have told : newsOf relay.written = entries.filterMap (Entry.told sender) := by
    rw [accounts.told]
    simp only [report_message_eq_told]
  obtain ⟨left, front⟩ := accounts.covered
  obtain ⟨taken, first, all, logs⟩ := accounts.logs
  refine ⟨entries, left, ?_⟩
  constructor
  case all => exact front.symm
  case turns => exact ⟨taken, first, all, capacity ▸ logs⟩
  case told => exact told
  case own =>
    intro report written
    have news : .report report ∈ newsOf relay.written :=
      List.mem_filterMap.mpr ⟨_, written, rfl⟩
    rw [told] at news
    obtain ⟨entry, -, made⟩ := List.mem_filterMap.mp news
    cases entry with
    | run lost seen => simp [Entry.told] at made
    | item other seen =>
      obtain ⟨own, rfl⟩ := by simpa [Entry.told] using made
      exact own
  case runs =>
    intro front lost back whole before behind
    obtain ⟨early, notices, late, split, begun, ended, covered, runs⟩ :=
      Entry.run_covered whole before behind
    refine ⟨early, notices, late, split, begun, covered, ended, ?_, ?_⟩
    · rw [told, split, List.filterMap_append, List.filterMap_append, told_of_runs sender runs]
    · rw [← covered, List.length_flatMap]
  case further =>
    intro early first second late seen next split
    rw [split] at logs
    exact logs.sent_between
  case through => exact accounts.nothing_left front
  case delivers =>
    intro harmless
    have live : relay.Live := Relay.Live.run ⟨rfl, rfl, rfl⟩ harmless
    exact ⟨live.going, fun count enough => live.turns_write_pending enough⟩

/-- The channel of capacity two keeps two reports. -/
theorem make_two : Channel.make 2 = .ok (⟨2, 0, []⟩ : Channel Report) := by
  have two : Nat.nextPowerOfTwo 2 = 2 := by decide +kernel
  exact Channel.make_eq_ok_iff.mpr ⟨by decide, by decide, by rw [Channel.ofCapacity, two]⟩

/-- A report of a sender, told from others by what it leaves. -/
def reportOf (sender : String) (leaves : Int) : Report :=
  { (default : Report) with sender, leaves }

/-- Of five reports on a channel that keeps two, the first arrives, the next two are overwritten,
the fourth is for another sender and the fifth arrives. -/
theorem crowded_stream_accounts :
    let events : List (RelayEvent Report) :=
      [.sent (reportOf "s" 1), .sent (reportOf "s" 2), .turn, .sent (reportOf "s" 3),
        .sent (reportOf "t" 4), .sent (reportOf "s" 5), .turn, .turn, .beat 7, .turn, .turn]
    let empty : Channel Report := ⟨2, 0, []⟩
    let relay := (Relay.subscribed (empty.sendAll [])).run (reportMessage? (some "s")) events
    Channel.make 2 = .ok empty ∧
      newsOf relay.written = [.report (reportOf "s" 1), .error "2 messages dropped",
        .report (reportOf "s" 5)] ∧
      ∃ entries left,
        AccountedFor (Nat.nextPowerOfTwo 2) (some "s") events relay entries left :=
  ⟨make_two, by decide, streams_account_for_reports make_two [] (some "s") _⟩

/-- There is no channel of no capacity. On one that keeps two, four reports in a row are lost
before any is received, two of them before the first turn and two between the turns. No notice
tells that four were lost. -/
theorem run_told_in_two_notices :
    let events : List (RelayEvent Report) :=
      [.sent (reportOf "s" 1), .sent (reportOf "s" 2), .sent (reportOf "s" 3),
        .sent (reportOf "s" 4), .turn, .sent (reportOf "s" 5), .sent (reportOf "s" 6),
        .turn, .turn, .turn]
    let empty : Channel Report := ⟨2, 0, []⟩
    let relay := (Relay.subscribed empty).run (reportMessage? none) events
    (Channel.make 0 : Except CapacityFault (Channel Report)) = .error .zero ∧
      Channel.make 2 = .ok empty ∧
      newsOf relay.written = [.error "2 messages dropped", .error "2 messages dropped",
        .report (reportOf "s" 5), .report (reportOf "s" 6)] ∧
      .error "4 messages dropped" ∉ newsOf relay.written :=
  ⟨rfl, make_two, by decide, by decide⟩

end Bourse
