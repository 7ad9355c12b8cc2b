import ResolverRecovery.Metadata.Token

/-!
# Events and their log

Every stage of a recovery leaves events behind: what was detected, which bodies were changed, what
came out.  A log is the list of them in the order in which they happened, and only grows.

## Main definitions

* `EventKind`, `Event` and `EventLog`.
* `EventLog.push`, `EventLog.merge`: the two ways in which a log grows.
* `EventLog.ofKind`, `EventLog.ofMethod`, `EventLog.countByKind`: what is in a log.
* `EventLog.summary`: the events other than diagnostics, counted.
-/

namespace ResolverRecovery

/-- What an event tells of. -/
inductive EventKind where
  /-- A type was taken for a resolver. -/
  | resolverDetected
  /-- The search of a module is over, with or without a find. -/
  | detectionComplete
  /-- The initializer of a resolver was found. -/
  | initializerLocated
  /-- A method body was normalized. -/
  | methodNormalized
  /-- The literals of a method body were decrypted. -/
  | stringsDecrypted
  /-- An embedded resource was decrypted. -/
  | resourceDecrypted
  /-- A resource was decrypted and decoded. -/
  | resourceRecovered
  /-- A recovered resource was stored in the module. -/
  | resourceMerged
  | info
  /-- Something unexpected that does no harm. -/
  | warning
  | error
  deriving DecidableEq

namespace EventKind

/-- All kinds, in the order of declaration. -/
def all : List EventKind :=
  [resolverDetected, detectionComplete, initializerLocated, methodNormalized, stringsDecrypted,
    resourceDecrypted, resourceRecovered, resourceMerged, info, warning, error]

/-- The kind in words. -/
def description : EventKind → String
  | resolverDetected => "resolver detected"
  | detectionComplete => "detection complete"
  | initializerLocated => "initializer located"
  | methodNormalized => "method normalized"
  | stringsDecrypted => "strings decrypted"
  | resourceDecrypted => "resource decrypted"
  | resourceRecovered => "resource recovered"
  | resourceMerged => "resource merged"
  | info => "info"
  | warning => "warning"
  | error => "error"

/-- The words of the description joined with a capital letter each. -/
def label (k : EventKind) : String :=
  String.join ((k.description.splitOn " ").map String.capitalize)

/-- The kind that has this description. -/
def ofDescription? (text : String) : Option EventKind :=
  all.find? fun k => k.description == text

/-- The kinds that comment on a recovery and do not advance it. -/
def isDiagnostic : EventKind → Bool
  | info | warning | error => true
  | _ => false

end EventKind

/-- Something that happened. -/
structure Event where
  kind : EventKind
  /-- The method that the event concerns. -/
  method : Option Token
  /-- The offset in the body of that method. -/
  location : Option UInt32
  /-- The event in words. -/
  message : String
  deriving DecidableEq

namespace Event

/-- An event that concerns no method. -/
def plain (kind : EventKind) (message : String) : Event := ⟨kind, none, none, message⟩

/-- An event that concerns a method. -/
def onMethod (kind : EventKind) (method : Token) (message : String) : Event :=
  ⟨kind, some method, none, message⟩

/-- The written form: the kind in brackets, the message, and the method in parentheses. -/
def text (e : Event) : String :=
  "[" ++ e.kind.description ++ "] " ++ e.message ++
    match e.method with
    | some t => " (" ++ t.text ++ ")"
    | none => ""

end Event

/-- The events so far, the oldest first. -/
structure EventLog where
  /-- The events in the order in which they happened. -/
  events : List Event
  deriving DecidableEq

namespace EventLog

/-- No event has happened. -/
def empty : EventLog := ⟨[]⟩

/-- The log with one more event. -/
def push (log : EventLog) (e : Event) : EventLog := ⟨log.events ++ [e]⟩

/-- The log with all events of another one behind its own. -/
def merge (log other : EventLog) : EventLog := ⟨log.events ++ other.events⟩

/-- The number of events. -/
def size (log : EventLog) : Nat := log.events.length

/-- The events of a kind. -/
def ofKind (log : EventLog) (k : EventKind) : List Event :=
  log.events.filter fun e => e.kind = k

/-- The events that concern a method. -/
def ofMethod (log : EventLog) (t : Token) : List Event :=
  log.events.filter fun e => e.method = some t

/-- Some event is of the kind. -/
def has (log : EventLog) (k : EventKind) : Bool :=
  log.events.any fun e => e.kind = k

/-- The number of events of a kind. -/
def count (log : EventLog) (k : EventKind) : Nat := (log.ofKind k).length

/-- The kinds that occur in the log, each with the number of its events. -/
def countByKind (log : EventLog) : List (EventKind × Nat) :=
  (EventKind.all.filter log.has).map fun k => (k, log.count k)

/-- A count and the kind that it counts in words. -/
def countText (c : EventKind × Nat) : String := toString c.2 ++ " " ++ c.1.description

/-- The summary of a log of `size` events whose counts by kind are given in any order.  Diagnostics
are left out unless there is nothing else, and the parts are put into alphabetical order. -/
def summaryOf (size : Nat) (counts : List (EventKind × Nat)) : String :=
  if size = 0 then
    "no events"
  else
    match (counts.filter fun c => !c.1.isDiagnostic).map countText with
    | [] => toString size ++ " events"
    | parts => String.intercalate ", " (parts.mergeSort fun a b => decide (a ≤ b))

/-- The events of the log other than diagnostics, counted by kind. -/
def summary (log : EventLog) : String := summaryOf log.size log.countByKind

end EventLog

end ResolverRecovery
