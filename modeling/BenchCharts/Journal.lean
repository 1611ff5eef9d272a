import BenchCharts.Text.Blank

/-!
# Journal

What the library reports about its work: events with a level and a topic.  A
`LogFilter` chooses the events that are shown.  It has a list of rules, each with
the highest level that it admits and the beginning of the topics that it speaks
of, of which the rule with the longest beginning decides; and it can have a pattern
that the text of an event must match.
-/

namespace BenchCharts

/-! ## Events -/

/-- The importance of an event, the most important first. -/
inductive Level where
  | error
  | warn
  | info
  | debug
  | trace
  deriving DecidableEq

namespace Level

/-- The position in the order of importance, counted from one. -/
def rank : Level → Nat
  | error => 1
  | warn => 2
  | info => 3
  | debug => 4
  | trace => 5

def name : Level → String
  | error => "ERROR"
  | warn => "WARN"
  | info => "INFO"
  | debug => "DEBUG"
  | trace => "TRACE"

def all : List Level := [error, warn, info, debug, trace]

end Level

/-- The part of the program that an event comes from. -/
inductive Topic where
  | program
  | chart
  | resourceLog
  | report
  deriving DecidableEq

def Topic.name : Topic → String
  | program => "loadchart"
  | chart => "loadchart::chart"
  | resourceLog => "loadchart::resource_log"
  | report => "loadchart::report"

/-- An event in the journal. -/
structure Event where
  level : Level
  topic : Topic
  text : String
  deriving DecidableEq

/-- The events of a piece of work, in order. -/
abbrev Journal := List Event

namespace Event

/-- The width to which level names are filled. -/
def levelWidth : Nat := 5

/-- The level's name, filled with blanks. -/
def paddedLevel (e : Event) : String :=
  e.level.name ++ String.ofList (List.replicate (levelWidth - e.level.name.length) ' ')

/-- An event as it is shown. -/
def line (e : Event) : String :=
  s!"[{e.paddedLevel} {e.topic.name}] {e.text}"

end Event

/-! ## Filters -/

/-- Admits the events up to a level, of the topics whose names have a beginning. -/
structure LogRule where
  beginning : List Char
  limit : Nat
  deriving DecidableEq

/-- The rules of a filter, and the texts that its pattern matches, if it has one. -/
structure LogFilter where
  rules : List LogRule
  pattern : Option (String → Bool) := none

/-- How patterns are read: the texts that a pattern matches, or the reason why it is not
one.  The language of patterns is left open. -/
abbrev PatternReader := String → Except String (String → Bool)

/-- Splits a text at a character. -/
def splitAt (c : Char) (cs : List Char) : List (List Char) :=
  cs.foldr
    (fun d parts =>
      if d = c then [] :: parts
      else
        match parts with
        | [] => [[d]]
        | part :: rest => (d :: part) :: rest)
    [[]]

namespace LogRule

/-- The highest level that a word names, in any case; `off` admits nothing. -/
def levelLimit? (word : List Char) : Option Nat :=
  let upper := String.ofList (word.map Char.toUpper)
  if upper = "OFF" then some 0
  else (Level.all.find? (·.name = upper)).map Level.rank

/-- Reads a rule: a level, the beginning of a topic, or both with an equals sign
between them.  The error is the part of the text that is refused. -/
def ofChars (cs : List Char) : Except (List Char) LogRule :=
  match splitAt '=' cs with
  | [word] =>
      match levelLimit? word with
      | some limit => .ok { beginning := [], limit }
      | none => .ok { beginning := word, limit := Level.trace.rank }
  | [beginning, word] =>
      match Text.trim word with
      | [] => .ok { beginning, limit := Level.trace.rank }
      | word =>
          match levelLimit? word with
          | some limit => .ok { beginning, limit }
          | none => .error word
  | _ => .error cs

/-- The rule speaks of a topic. -/
def covers (r : LogRule) (t : Topic) : Bool :=
  r.beginning.isPrefixOf t.name.toList

end LogRule

namespace LogFilter

/-- The rules without any given: errors only. -/
def errorsOnly : List LogRule :=
  [{ beginning := [], limit := Level.error.rank }]

/-- The texts of rules, which have commas between them. -/
def words (cs : List Char) : List (List Char) :=
  ((splitAt ',' cs).map Text.trim).filter (· ≠ [])

/-- Reads rules; those that cannot be read are dropped. -/
def readRules (cs : List Char) : List LogRule :=
  match (words cs).filterMap (LogRule.ofChars · |>.toOption) with
  | [] => errorsOnly
  | rules => rules

/-- Reads a filter: rules, and a pattern behind a slash.  A pattern that cannot be read is
dropped, and a second slash spoils all of it. -/
def ofString (read : PatternReader) (s : String) : LogFilter :=
  match splitAt '/' s.toList with
  | [rules] => { rules := readRules rules }
  | [rules, pattern] =>
      { rules := readRules rules, pattern := (read (String.ofList pattern)).toOption }
  | _ => { rules := errorsOnly }

/-- A line for every rule that cannot be read. -/
def ruleWarnings (cs : List Char) : List String :=
  (words cs).filterMap fun word =>
    match LogRule.ofChars word with
    | .ok _ => none
    | .error refused =>
        some s!"warning: invalid logging spec '{String.ofList refused}', ignoring it"

/-- A line for everything in a filter that cannot be read. -/
def warnings (read : PatternReader) (s : String) : List String :=
  match splitAt '/' s.toList with
  | [rules] => ruleWarnings rules
  | [rules, pattern] =>
      ruleWarnings rules ++
        match read (String.ofList pattern) with
        | .ok _ => []
        | .error reason => [s!"warning: invalid regex filter - {reason}"]
  | _ => [s!"warning: invalid logging spec '{s}', ignoring it (too many '/'s)"]

/-- Of two rules, the one with the longer beginning, and of equally long ones the
later one. -/
def stronger (a : Option LogRule) (b : LogRule) : Option LogRule :=
  match a with
  | some a => if b.beginning.length < a.beginning.length then some a else some b
  | none => some b

/-- The rule that decides about an event admits its level. -/
def admitsLevel (f : LogFilter) (e : Event) : Bool :=
  match (f.rules.filter (·.covers e.topic)).foldl stronger none with
  | some rule => e.level.rank ≤ rule.limit
  | none => false

/-- The event is shown. -/
def admits (f : LogFilter) (e : Event) : Bool :=
  f.admitsLevel e && f.pattern.all (· e.text)

/-- The lines of the events that are shown. -/
def lines (f : LogFilter) (journal : Journal) : List String :=
  (journal.filter f.admits).map Event.line

end LogFilter

end BenchCharts
